import WpaCliWrapper.Smartlist.Splitting

/-! When the loop of `smartlist_split_string` ends. A round that goes on moves forward unless the
separator is empty. -/
namespace WpaCliWrapper
open CText

namespace Smartlist

section Rounds
variable (sep : Option Bytes) (flags : ℕ) (max : ℤ) (fresh : ℕ → ℕ → Bytes)

variable {sep flags max fresh}

end Rounds

section EmptySeparator
variable {flags : ℕ} {max : ℤ} {fresh : ℕ → ℕ → Bytes}

end EmptySeparator

section Main
variable (sep : Option Bytes) (flags : ℕ) (max : ℤ) (fresh : ℕ → ℕ → Bytes)

variable {sl : Smartlist Bytes} {xs : List Bytes} (h : sl.Holds xs) (ha : sl.Allocated)
  (str : CString)
include h ha

end Main

end Smartlist

end WpaCliWrapper
