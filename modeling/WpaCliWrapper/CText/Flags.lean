import Mathlib.Data.List.Induction
import Mathlib.Data.Nat.Bitwise
import WpaCliWrapper.CText.Bytes
import WpaCliWrapper.CText.Words

/-! Sets of flags in the bits of a number, written as the names of the flags and read back, and the
buffer that the names are written into. -/
namespace CText

section Names
variable (table : List (Bytes × ℕ))

/-- The names of the flags that are set, in the order of the table. -/
def flagNames (v : ℕ) : List Bytes := (table.filter fun r => v.testBit r.2).map Prod.fst

def flagBit (w : Bytes) : Option ℕ := (table.find? (·.1 == w)).map Prod.snd

/-- The flags that some names stand for, and how many of the names are unknown. -/
def readFlags (ws : List Bytes) : ℕ × ℕ :=
  ws.foldl (fun r w => (flagBit table w).elim (r.1,r.2+1) fun k => (r.1 ||| 2^k,r.2)) (0,0)

variable {table}

theorem mem_of_flagBit {w : Bytes} {k : ℕ} (h : flagBit table w = some k) : (w,k) ∈ table := by
  obtain ⟨r,hr,rfl⟩ := Option.map_eq_some_iff.mp h
  have hw : r.1 = w := by simpa using List.find?_some hr
  exact hw ▸ List.mem_of_find?_eq_some hr

/-- Known names put their bits together. -/
theorem testBit_readFlags {rows : List (Bytes × ℕ)} (h : ∀ r ∈ rows, flagBit table r.1 = some r.2)
    (k : ℕ) : (readFlags table (rows.map Prod.fst)).2 = 0 ∧
      ((readFlags table (rows.map Prod.fst)).1.testBit k = true ↔ ∃ r ∈ rows, r.2 = k) := by
  induction rows using List.reverseRecOn with
  | nil => simp [readFlags]
  | append_singleton rows row ih =>
    obtain ⟨herr,hbit⟩ := ih fun r hr => h r (List.mem_append_left _ hr)
    have hrow := h row (List.mem_append_right _ (List.mem_singleton_self row))
    unfold readFlags at herr hbit ⊢
    rw [List.map_append,List.foldl_append,List.map_singleton,List.foldl_cons,List.foldl_nil,hrow]
    refine ⟨herr,?_⟩
    simp only [Option.elim_some,Nat.testBit_or,Bool.or_eq_true,hbit,Nat.testBit_two_pow,
      decide_eq_true_eq,List.mem_append,List.mem_singleton]
    constructor
    · rintro (⟨r,hr,rfl⟩ | rfl)
      · exact ⟨r,.inl hr,rfl⟩
      · exact ⟨row,.inr rfl,rfl⟩
    · rintro ⟨r,hr | rfl,rfl⟩
      · exact .inl ⟨r,hr,rfl⟩
      · exact .inr rfl

/-- No bit is set that the table has no row for. -/
theorem row_of_testBit {ws : List Bytes} {k : ℕ} (h : (readFlags table ws).1.testBit k) :
    ∃ r ∈ table, r.2 = k := by
  induction ws using List.reverseRecOn with
  | nil => simp [readFlags] at h
  | append_singleton ws w ih =>
    unfold readFlags at ih h
    rw [List.foldl_append,List.foldl_cons,List.foldl_nil] at h
    cases hw : flagBit table w with
    | none =>
      rw [hw] at h
      exact ih h
    | some j =>
      rw [hw,Option.elim_some,Nat.testBit_or,Bool.or_eq_true,Nat.testBit_two_pow] at h
      rcases h with h | h
      · exact ih h
      · exact ⟨(w,j),mem_of_flagBit hw,of_decide_eq_true h⟩

/-- Flags are read back from their names, where every bit has a name that is read as that bit. -/
theorem readFlags_flagNames {names : List (Bytes × ℕ)}
    (hread : ∀ r ∈ names, flagBit table r.1 = some r.2) {v : ℕ}
    (hv : ∀ k, v.testBit k → ∃ r ∈ names, r.2 = k) :
    readFlags table (flagNames names v) = (v,0) := by
  have hrows : ∀ r ∈ names.filter fun r => v.testBit r.2, flagBit table r.1 = some r.2 :=
    fun r hr => hread r (List.mem_filter.mp hr).1
  refine Prod.ext (Nat.eq_of_testBit_eq fun k => ?_) (testBit_readFlags hrows 0).1
  rw [Bool.eq_iff_iff]
  refine (testBit_readFlags hrows k).2.trans ⟨?_,fun hk => ?_⟩
  · rintro ⟨r,hr,rfl⟩
    exact (List.mem_filter.mp hr).2
  · obtain ⟨r,hr,rfl⟩ := hv k hk
    exact ⟨r,List.mem_filter.mpr ⟨hr,hk⟩,rfl⟩

theorem flagNames_subset {v : ℕ} {w : Bytes} (h : w ∈ flagNames table v) :
    w ∈ table.map Prod.fst := by
  obtain ⟨r,hr,rfl⟩ := List.mem_map.mp h
  exact List.mem_map_of_mem (List.mem_filter.mp hr).1

theorem flagNames_eq_nil_iff {v : ℕ} (hv : ∀ k, v.testBit k → ∃ r ∈ table, r.2 = k) :
    flagNames table v = [] ↔ v = 0 := by
  rw [flagNames,List.map_eq_nil_iff,List.filter_eq_nil_iff]
  constructor
  · intro h
    refine Nat.eq_of_testBit_eq fun k => ?_
    rw [Nat.zero_testBit,Bool.eq_false_iff]
    intro hk
    obtain ⟨r,hr,rfl⟩ := hv k hk
    exact h r hr hk
  · rintro rfl r -
    simp

end Names

section Room

/-- Words with one blank between them. -/
def joined (ws : List Bytes) : Bytes := (spaced 32 ws).tail

/-- Every word is printed by `snprintf(pos, end - pos, "%s%s", …)`, with a blank before it unless
it is the first; the flag says whether all of them fit. A word that does not fit is cut. -/
def writeWords (size : ℕ) (buf : Bytes) : List Bytes → Bytes × Bool
  | [] => (buf,true)
  | w :: ws =>
    let text := if buf = [] then w else 32 :: w
    if size-buf.length ≤ text.length then (buf ++ clip (size-buf.length) text,false)
    else writeWords size (buf ++ text) ws

theorem words_joined {p : UInt8 → Bool} (hp : p 32) {ws : List Bytes} (h : ∀ w ∈ ws, IsWord p w) :
    words p (joined ws) = ws := by
  cases ws with
  | nil => exact words_nil p
  | cons w ws =>
    have hspaced := words_spaced hp h
    rwa [spaced_cons,words_cons_delim _ hp] at hspaced

theorem writeWords_append {size : ℕ} {buf : Bytes} (hbuf : buf ≠ []) {ws : List Bytes}
    (h : (buf ++ spaced 32 ws).length < size) :
    writeWords size buf ws = (buf ++ spaced 32 ws,true) := by
  induction ws generalizing buf with
  | nil => simp [writeWords]
  | cons w ws ih =>
    rw [spaced_cons,← List.cons_append,← List.append_assoc] at h ⊢
    have hlen := h
    rw [List.length_append,List.length_append] at hlen
    rw [writeWords,if_neg hbuf,if_neg (by omega)]
    exact ih (by simp) h

/-- Words that fit are written as they are. -/
theorem writeWords_fits {size : ℕ} {ws : List Bytes} (hws : ∀ w ∈ ws, w ≠ [])
    (h : (joined ws).length < size) : writeWords size [] ws = (joined ws,true) := by
  cases ws with
  | nil => rfl
  | cons w ws =>
    have hlen : (w ++ spaced 32 ws).length < size := h
    rw [List.length_append] at hlen
    rw [writeWords,if_pos rfl,if_neg (by simpa using by omega)]
    exact writeWords_append (hws w List.mem_cons_self) h

end Room

end CText
