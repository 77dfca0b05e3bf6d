import Mathlib.Data.List.DropRight
import WpaCliWrapper.Smartlist.Capacity
import WpaCliWrapper.CText.Decimal
import WpaCliWrapper.CText.Substring

/-! Strings that are split into a smartlist and joined from one. -/
namespace WpaCliWrapper
open CText

/-- `smp_strndup`: the first characters of a string, with a terminator. -/
def smpStrndup (s : Bytes) (n : ℕ) : Bytes := s.take n

/-- `smp_strstrip`: all characters of one kind are removed. -/
def smpStrstrip (s strip : Bytes) : Bytes := s.filter (!strip.contains ·)

namespace Smartlist

def splitSkipSpace : ℕ := 0x01
def splitIgnoreBlank : ℕ := 0x02

section Split
variable (sep : Option Bytes) (flags : ℕ) (max : ℤ) (fresh : ℕ → ℕ → Bytes)

/-- Where the next string ends: at the end of the text if it is the last one that may be split
off, else at the separator, or at a blank if there is none. -/
def splitEnd (cp : Bytes) (n : ℕ) : ℕ :=
  if 0 < max ∧ (n : ℤ) = max-1 then cp.length
  else match sep with
    | some sep => (strstr sep cp).getD cp.length
    | none => (cp.takeWhile fun c => c != 9 && c != 32).length

/-- The text after the string and its separator, unless the text ends with it. -/
def splitNext (cp : Bytes) (stop : ℕ) : Option Bytes :=
  if stop = cp.length then none
  else match sep with
    | some sep => some (cp.drop (stop+sep.length))
    | none => some ((cp.drop (stop+1)).dropWhile fun c => c == 9 || c == 32)

/-- The whitespace that is skipped before the separator is searched. -/
def splitSkip (cp : Bytes) : Bytes :=
  if flags &&& splitSkipSpace ≠ 0 then cp.dropWhile isSpace else cp

/-- One round of the loop of `smartlist_split_string`, and the text that the next one starts
with. -/
def splitRound (cp : Bytes) (sl : Smartlist Bytes) (n : ℕ) :
    Option (Option Bytes × Smartlist Bytes × ℕ) := do
  let skipSpace := flags &&& splitSkipSpace ≠ 0
  let cp := splitSkip flags cp
  let stop := splitEnd sep max cp n
  let next := splitNext sep cp stop
  let stop := if skipSpace then ((cp.take stop).reverse.dropWhile isSpace).length else stop
  if stop ≠ 0 ∨ flags &&& splitIgnoreBlank = 0 then
    let string := smpStrndup cp stop
    let string := if skipSpace then smpStrstrip string [32] else string
    return (next,← sl.add (fresh n) string,n+1)
  else return (next,sl,n)

/-- The loop of `smartlist_split_string`, for at most some rounds. -/
def splitLoop : ℕ → Bytes → Smartlist Bytes → ℕ → Option (Smartlist Bytes × ℕ)
  | 0, _, _, _ => none
  | rounds+1, cp, sl, n => do
    match ← splitRound sep flags max fresh cp sl n with
    | (none,sl,n) => pure (sl,n)
    | (some cp,sl,n) => splitLoop rounds cp sl n

/-- `smartlist_split_string`: the smartlist, and how many strings were appended. -/
def splitString (sl : Smartlist Bytes) (str : CString) : Option (Smartlist Bytes × ℕ) :=
  splitLoop sep flags max fresh (str.bytes.length+max.toNat+1) str.bytes sl 0

end Split

section Rounds
variable (sep : Option Bytes) (flags : ℕ) (max : ℤ) (fresh : ℕ → ℕ → Bytes)

/-- The text from where the separator is searched up to where it is found. -/
def splitPiece (cp : Bytes) (n : ℕ) : Bytes :=
  (splitSkip flags cp).take (splitEnd sep max (splitSkip flags cp) n)

/-- The whitespace at the end is left out. -/
def splitBack (piece : Bytes) : Bytes :=
  if flags &&& splitSkipSpace ≠ 0 then piece.rdropWhile isSpace else piece

/-- The string that one round appends, or none. -/
def splitStored (piece : Bytes) : List Bytes :=
  if splitBack flags piece ≠ [] ∨ flags &&& splitIgnoreBlank = 0 then
    [if flags &&& splitSkipSpace ≠ 0 then smpStrstrip (splitBack flags piece) [32]
      else splitBack flags piece]
  else []

/-- Where a round goes on. -/
def splitAfter (cp : Bytes) (n : ℕ) : Option Bytes :=
  splitNext sep (splitSkip flags cp) (splitEnd sep max (splitSkip flags cp) n)

theorem splitEnd_le (cp : Bytes) (n : ℕ) : splitEnd sep max cp n ≤ cp.length := by
  unfold splitEnd
  split
  · exact le_rfl
  · cases sep with
    | none => exact (List.takeWhile_prefix _).length_le
    | some sep =>
      cases hfind : strstr sep cp with
      | none => simp [hfind]
      | some i => simpa [hfind] using (strstr_eq_some_iff.mp hfind).1.1

theorem splitPiece_length (cp : Bytes) (n : ℕ) : (splitPiece sep flags max cp n).length =
    splitEnd sep max (splitSkip flags cp) n :=
  List.length_take_of_le (splitEnd_le sep max _ n)

theorem splitBack_isTaken (piece : Bytes) : splitBack flags piece <+: piece := by
  unfold splitBack
  split
  · exact List.rdropWhile_prefix isSpace _
  · exact List.prefix_rfl

/-- The strings that the loop appends, if it ends after at most some rounds. -/
def splitTexts : ℕ → Bytes → ℕ → Option (List Bytes)
  | 0, _, _ => none
  | rounds+1, cp, n =>
    let stored := splitStored flags (splitPiece sep flags max cp n)
    match splitAfter sep flags max cp n with
    | none => some stored
    | some cp' => (splitTexts rounds cp' (n+stored.length)).map (stored ++ ·)

/-- One round appends the stored part of its piece, and goes on behind the separator. -/
theorem splitRound_eq (cp : Bytes) (sl : Smartlist Bytes) (n : ℕ) :
    splitRound sep flags max fresh cp sl n =
      (addEach fresh (splitStored flags (splitPiece sep flags max cp n)) n sl).map fun sl' =>
        (splitAfter sep flags max cp n,sl',
          n+(splitStored flags (splitPiece sep flags max cp n)).length) := by
  have hend := (splitPiece_length sep flags max cp n).symm
  have hpre : splitPiece sep flags max cp n <+: splitSkip flags cp := List.take_prefix _ _
  rw [splitRound,splitAfter]
  generalize splitPiece sep flags max cp n = piece at hend hpre ⊢
  have hpiece : (splitSkip flags cp).take piece.length = piece :=
    (List.prefix_iff_eq_take.mp hpre).symm
  have hback : (if flags &&& splitSkipSpace ≠ 0 then (piece.reverse.dropWhile isSpace).length
      else piece.length) = (splitBack flags piece).length := by
    unfold splitBack
    split
    · rw [List.rdropWhile,List.length_reverse]
    · rfl
  have htake : smpStrndup (splitSkip flags cp) (splitBack flags piece).length =
      splitBack flags piece :=
    (List.prefix_iff_eq_take.mp ((splitBack_isTaken flags piece).trans hpre)).symm
  have hne : (splitBack flags piece).length ≠ 0 ↔ splitBack flags piece ≠ [] := by
    rw [ne_eq,List.length_eq_zero_iff]
  simp only [hend,hpiece,hback,htake,hne]
  by_cases hstored : splitBack flags piece ≠ [] ∨ flags &&& splitIgnoreBlank = 0
  · rw [splitStored,if_pos hstored,if_pos hstored,addEach]
    generalize add (fresh n) sl _ = r
    cases r <;> rfl
  · rw [splitStored,if_neg hstored,if_neg hstored]
    rfl

/-- The loop appends its strings to the smartlist one after the other. -/
theorem splitLoop_eq (rounds : ℕ) (cp : Bytes) (sl : Smartlist Bytes) (n : ℕ) :
    splitLoop sep flags max fresh rounds cp sl n =
      (splitTexts sep flags max rounds cp n).bind fun strings =>
        (addEach fresh strings n sl).map fun sl' => (sl',n+strings.length) := by
  induction rounds generalizing cp sl n with
  | zero => rfl
  | succ rounds ih =>
    rw [splitLoop,splitRound_eq,splitTexts]
    generalize splitStored flags (splitPiece sep flags max cp n) = stored
    cases splitAfter sep flags max cp n with
    | none => cases hadd : addEach fresh stored n sl <;> simp [hadd]
    | some cp' =>
      cases hadd : addEach fresh stored n sl with
      | none => simp [addEach_append,hadd,Option.bind_map]
      | some sl₁ => simp [addEach_append,hadd,ih,Option.bind_map,Nat.add_assoc]

section Holds
variable {sep flags max fresh} {sl : Smartlist Bytes} {xs : List Bytes} (h : sl.Holds xs)
  {rounds n : ℕ} {cp : Bytes}
include h

theorem splitLoop_holds (fresh : ℕ → ℕ → Bytes) {strings : List Bytes}
    (htexts : splitTexts sep flags max rounds cp n = some strings)
    (hlen : xs.length+strings.length ≤ 2^30) : ∃ sl',
      splitLoop sep flags max fresh rounds cp sl n = some (sl',n+strings.length) ∧
        sl'.Holds (xs ++ strings) := by
  obtain ⟨sl',hadd,hold⟩ := h.addEach hlen n
  refine ⟨sl',?_,hold⟩
  rw [splitLoop_eq,htexts,Option.bind_some,hadd]
  rfl

/-- The loop ends without a fault if and only if the last power of two has room for its strings. -/
theorem splitLoop_iff (ha : sl.Allocated) :
    (∃ r, splitLoop sep flags max fresh rounds cp sl n = some r) ↔
      ∃ strings, splitTexts sep flags max rounds cp n = some strings ∧
        xs.length+strings.length ≤ 2^30 := by
  constructor
  · rintro ⟨r,hrun⟩
    rw [splitLoop_eq] at hrun
    obtain ⟨strings,htexts,hrun⟩ := Option.bind_eq_some_iff.mp hrun
    obtain ⟨sl',hadd,-⟩ := Option.map_eq_some_iff.mp hrun
    exact ⟨strings,htexts,(addEach_iff h ha strings n).mp ⟨sl',hadd⟩⟩
  · rintro ⟨strings,htexts,hlen⟩
    obtain ⟨sl',hrun,-⟩ := splitLoop_holds h fresh htexts hlen
    exact ⟨_,hrun⟩

end Holds

variable {sep flags max}

theorem splitSkip_suffix (cp : Bytes) : splitSkip flags cp <:+ cp := by
  unfold splitSkip
  split
  · exact List.dropWhile_suffix _
  · exact List.suffix_rfl

/-- A round that goes on does so inside the text, and behind where it has started unless the
separator is empty. -/
theorem splitAfter_suffix {cp cp' : Bytes} {n : ℕ}
    (hafter : splitAfter sep flags max cp n = some cp') :
    cp' <:+ cp ∧ (sep ≠ some [] → cp'.length < cp.length) := by
  have hskip : splitSkip flags cp <:+ cp := splitSkip_suffix cp
  have hle := splitEnd_le sep max (splitSkip flags cp) n
  unfold splitAfter splitNext at hafter
  generalize splitEnd sep max (splitSkip flags cp) n = stop at hafter hle
  split at hafter
  · cases hafter
  rename_i hstop
  have hlen := hskip.length_le
  cases sep with
  | none =>
    obtain rfl := Option.some.inj hafter
    have hdrop := List.dropWhile_suffix (fun c : UInt8 => c == 9 || c == 32)
      (l := (splitSkip flags cp).drop (stop+1))
    refine ⟨(hdrop.trans (List.drop_suffix _ _)).trans hskip,fun _ => ?_⟩
    have := hdrop.length_le
    rw [List.length_drop] at this
    omega
  | some sep =>
    obtain rfl := Option.some.inj hafter
    refine ⟨(List.drop_suffix _ _).trans hskip,fun hsep => ?_⟩
    have hpos : 0 < sep.length := List.length_pos_of_ne_nil fun hnil => hsep (by rw [hnil])
    rw [List.length_drop]
    omega

end Rounds

/-- The texts between the separators, each found from the end of the one before on. -/
def splitPieces (sep cp : Bytes) : List Bytes :=
  match strstr sep cp with
  | none => [cp]
  | some i =>
    if 0 < sep.length ∧ i+sep.length ≤ cp.length then
      cp.take i :: splitPieces sep (cp.drop (i+sep.length))
    else [cp]
termination_by cp.length
decreasing_by
  rw [List.length_drop]
  omega

section Between
variable {sep : Bytes}

theorem splitPieces_of_none {cp : Bytes} (hfind : strstr sep cp = none) :
    splitPieces sep cp = [cp] := by
  rw [splitPieces,hfind]

theorem splitPieces_of_some (hsep : sep ≠ []) {cp : Bytes} {i : ℕ}
    (hfind : strstr sep cp = some i) :
    splitPieces sep cp = cp.take i :: splitPieces sep (cp.drop (i+sep.length)) := by
  have hlen := (strstr_eq_some_iff.mp hfind).1.length_le
  rw [splitPieces,hfind]
  exact if_pos ⟨List.length_pos_of_ne_nil hsep,hlen⟩

theorem splitPieces_pos (sep cp : Bytes) : 0 < (splitPieces sep cp).length := by
  rw [splitPieces]
  split
  · exact Nat.succ_pos 0
  · split <;> exact Nat.succ_pos _

end Between

section Join
variable (n : ℕ) (join : Bytes)

/-- The loop that computes the length, on top of what it starts with. -/
def joinLength (joinLen : ℕ) : List Bytes → ℕ → ℕ
  | [], n => n
  | src :: rest, n => joinLength joinLen rest (n+src.length+if rest.isEmpty then 0 else joinLen)

/-- Bytes are written behind those that are in the buffer of `n+1` bytes. -/
def write (dst bytes : Bytes) : Option Bytes :=
  if dst.length+bytes.length ≤ n+1 then some (dst ++ bytes) else none

/-- The loop that fills the buffer. -/
def joinLoop : List Bytes → Bytes → Option Bytes
  | [], dst => some dst
  | src :: rest, dst => do
    let dst ← write n dst src
    joinLoop rest (← if rest.isEmpty then pure dst else write n dst join)

/-- `smartlist_join_strings2`: what is written into the new buffer, and the length. -/
def joinStrings2 (sl : Smartlist Bytes) (terminate : Bool) : Option (Bytes × ℕ) := do
  let n := joinLength join.length sl.items (if terminate then join.length else 0)
  let dst ← joinLoop n join sl.items []
  let dst ← if terminate then write n dst join else pure dst
  return (← write n dst [0],dst.length)

def joinStrings (join : CString) (sl : Smartlist Bytes) (terminate : Bool) :
    Option (Bytes × ℕ) := joinStrings2 join.bytes sl terminate

end Join

section Joined
variable (join : Bytes)

theorem intercalate_cons (src : Bytes) (rest : List Bytes) : join.intercalate (src :: rest) =
    src ++ (if rest.isEmpty then [] else join) ++ join.intercalate rest := by
  cases rest with
  | nil => simp
  | cons s rest => simp [List.intercalate_cons_cons]

theorem joinLength_eq (strs : List Bytes) (n : ℕ) :
    joinLength join.length strs n = n+(join.intercalate strs).length := by
  induction strs generalizing n with
  | nil => rfl
  | cons src rest ih =>
    have hif : (if rest.isEmpty then [] else join).length =
        if rest.isEmpty then 0 else join.length := by split <;> rfl
    rw [joinLength,ih,intercalate_cons,List.length_append,List.length_append,hif]
    omega

theorem joinLoop_eq {n : ℕ} (strs : List Bytes) (dst : Bytes)
    (hroom : dst.length+(join.intercalate strs).length ≤ n+1) :
    joinLoop n join strs dst = some (dst ++ join.intercalate strs) := by
  induction strs generalizing dst with
  | nil => simp [joinLoop]
  | cons src rest ih =>
    rw [intercalate_cons] at hroom ⊢
    simp only [List.length_append] at hroom
    rw [joinLoop,write,if_pos (by omega)]
    cases rest with
    | nil => simp [joinLoop]
    | cons s rest =>
      simp only [List.isEmpty_cons,Bool.false_eq_true,if_false] at hroom ⊢
      have hwrite : write n (dst ++ src) join = some (dst ++ src ++ join) := by
        rw [write,if_pos (by rw [List.length_append]; omega)]
      have hrest := ih (dst ++ src ++ join) (by simp only [List.length_append]; omega)
      simp only [Option.bind_eq_bind,Option.bind_some,hwrite,hrest]
      simp only [List.append_assoc]

/-- The buffer is filled with the strings and the separators, and exactly. -/
theorem joinStrings2_eq (sl : Smartlist Bytes) (terminate : Bool) :
    joinStrings2 join sl terminate =
      some (join.intercalate sl.items ++ (if terminate then join else []) ++ [0],
        joinLength join.length sl.items (if terminate then join.length else 0)) := by
  have hn := joinLength_eq join sl.items (if terminate then join.length else 0)
  have hloop := joinLoop_eq join sl.items [] (show ([] : Bytes).length+_ ≤
    joinLength join.length sl.items (if terminate then join.length else 0)+1 by
      rw [hn,List.length_nil]
      omega)
  have hwrite : ∀ {n : ℕ} {dst bytes : Bytes}, dst.length+bytes.length ≤ n+1 →
      write n dst bytes = some (dst ++ bytes) := fun h => if_pos h
  rw [List.nil_append] at hloop
  rw [joinStrings2]
  simp only [hloop,Option.bind_eq_bind,Option.bind_some]
  cases terminate with
  | true =>
    simp only [if_true] at hn ⊢
    rw [hwrite (by omega),Option.bind_some,hwrite (by simp; omega)]
    simp [hn]
    omega
  | false =>
    simp only [Bool.false_eq_true,if_false] at hn ⊢
    rw [Option.pure_def,Option.bind_some,hwrite (by simp; omega)]
    simp [hn]

end Joined

section Pieces
variable {sep : Bytes}

/-- No separator starts in a string that has no character of it. -/
theorem not_occursAt_piece (hsep : sep ≠ []) {s : Bytes} (hs : ∀ c ∈ s, c ∉ sep) (rest : Bytes)
    {j : ℕ} (hj : j < s.length) : ¬ OccursAt sep (s ++ rest) j := by
  intro h
  have hpos := List.length_pos_of_ne_nil hsep
  have hget := h.getElem? hpos
  rw [Nat.add_zero,List.getElem?_append_left hj,List.getElem?_eq_getElem hj] at hget
  exact hs s[j] (List.getElem_mem hj) (List.mem_of_getElem? hget.symm)

theorem strstr_piece_append (hsep : sep ≠ []) {s : Bytes} (hs : ∀ c ∈ s, c ∉ sep) (rest : Bytes) :
    strstr sep (s ++ (sep ++ rest)) = some s.length := by
  refine strstr_eq_some_iff.mpr ⟨⟨?_,?_⟩,fun j hj => not_occursAt_piece hsep hs _ hj⟩
  · simp
  · rw [List.drop_left]
    exact List.prefix_append _ _

theorem strstr_piece (hsep : sep ≠ []) {s : Bytes} (hs : ∀ c ∈ s, c ∉ sep) :
    strstr sep s = none := by
  refine strstr_eq_none_iff.mpr fun j h => ?_
  have hlen := h.length_le
  have hpos := List.length_pos_of_ne_nil hsep
  have hno := not_occursAt_piece hsep hs [] (j := j) (by omega)
  rw [List.append_nil] at hno
  exact hno h

theorem mem_intercalate {c : UInt8} {strs : List Bytes} (h : c ∈ sep.intercalate strs) :
    c ∈ sep ∨ ∃ s ∈ strs, c ∈ s := by
  induction strs with
  | nil => cases h
  | cons s rest ih =>
    rw [intercalate_cons] at h
    rcases List.mem_append.mp h with h | h
    · rcases List.mem_append.mp h with h | h
      · exact .inr ⟨s,List.mem_cons_self,h⟩
      · split at h
        · cases h
        · exact .inl h
    · rcases ih h with h | ⟨t,ht,h⟩
      · exact .inl h
      · exact .inr ⟨t,List.mem_cons_of_mem s ht,h⟩

/-- One round without flags. -/
theorem splitTexts_succ (sep : Bytes) (max : ℤ) (rounds : ℕ) (cp : Bytes) (n : ℕ) :
    splitTexts (some sep) 0 max (rounds+1) cp n =
      match splitNext (some sep) cp (splitEnd (some sep) max cp n) with
      | none => some [cp.take (splitEnd (some sep) max cp n)]
      | some cp' => (splitTexts (some sep) 0 max rounds cp' (n+1)).map
          (cp.take (splitEnd (some sep) max cp n) :: ·) := by
  have hskip : splitSkip 0 cp = cp := rfl
  have hstored : ∀ piece, splitStored 0 piece = [piece] := fun piece => by
    simp [splitStored,splitBack]
  rw [splitTexts,splitAfter,splitPiece,hskip,hstored]
  rfl

/-- How many strings are split off: one for each text between separators, up to the limit. -/
def splitCount (sep : Bytes) (max : ℤ) (cp : Bytes) : ℕ :=
  if 0 < max then min max.toNat (splitPieces sep cp).length else (splitPieces sep cp).length

/-- Joining the strings that are split off gives the text back. -/
theorem splitTexts_intercalate (hsep : sep ≠ []) (max : ℤ) {rounds n : ℕ} {cp : Bytes}
    (hrounds : cp.length < rounds) (hmax : 0 < max → (n : ℤ) < max) : ∃ ps,
      splitTexts (some sep) 0 max rounds cp n = some ps ∧ ps ≠ [] ∧ sep.intercalate ps = cp ∧
        ps.length = splitCount sep (if 0 < max then max-n else 0) cp := by
  induction rounds generalizing n cp with
  | zero => omega
  | succ rounds ih =>
    rw [splitTexts_succ]
    by_cases hcut : 0 < max ∧ (n : ℤ) = max-1
    -- the last string that may be split off takes the rest of the text
    · have hstop : splitEnd (some sep) max cp n = cp.length := if_pos hcut
      rw [hstop,splitNext,if_pos rfl,List.take_length]
      have hpos := splitPieces_pos sep cp
      refine ⟨[cp],rfl,List.cons_ne_nil _ _,List.intercalate_singleton,?_⟩
      rw [splitCount,if_pos hcut.1,if_pos (by omega),List.length_singleton]
      omega
    have hend : splitEnd (some sep) max cp n = (strstr sep cp).getD cp.length := if_neg hcut
    cases hfind : strstr sep cp with
    | none =>
      rw [hfind,Option.getD_none] at hend
      rw [hend,splitNext,if_pos rfl,List.take_length]
      refine ⟨[cp],rfl,List.cons_ne_nil _ _,List.intercalate_singleton,?_⟩
      rw [splitCount,splitPieces_of_none hfind,List.length_singleton]
      by_cases hlimit : 0 < max
      · have := hmax hlimit
        rw [if_pos hlimit,if_pos (by omega)]
        omega
      · rw [if_neg hlimit,if_neg (lt_irrefl 0)]
    | some i =>
      rw [hfind,Option.getD_some] at hend
      have hocc := (strstr_eq_some_iff.mp hfind).1
      have hlen := hocc.length_le
      have hpos := List.length_pos_of_ne_nil hsep
      rw [hend,splitNext,if_neg (by omega)]
      obtain ⟨ps,htexts,hne,hjoin,hcount⟩ := ih (n := n+1)
        (show (cp.drop (i+sep.length)).length < rounds by rw [List.length_drop]; omega)
        (fun hpos' => by have := hmax hpos'; omega)
      refine ⟨cp.take i :: ps,?_,List.cons_ne_nil _ _,?_,?_⟩
      · simp only [htexts,Option.map_some]
      · rw [List.intercalate_cons_of_ne_nil hne,hjoin]
        exact hocc.eq_append.symm
      · rw [List.length_cons,hcount,splitCount,splitCount,splitPieces_of_some hsep hfind,
          List.length_cons]
        by_cases hlimit : 0 < max
        · have := hmax hlimit
          rw [if_pos hlimit,if_pos hlimit,if_pos (by omega),if_pos (by omega)]
          omega
        · rw [if_neg hlimit,if_neg hlimit,if_neg (lt_irrefl 0),if_neg (lt_irrefl 0)]

/-- Strings without a character of the separator are split off one by one. -/
theorem splitTexts_pieces (hsep : sep ≠ []) {rounds n : ℕ} {strs : List Bytes}
    (hrounds : (sep.intercalate strs).length < rounds) (hne : strs ≠ [])
    (hstrs : ∀ s ∈ strs, ∀ c ∈ s, c ∉ sep) :
    splitTexts (some sep) 0 0 rounds (sep.intercalate strs) n = some strs := by
  induction strs generalizing rounds n with
  | nil => exact absurd rfl hne
  | cons s rest ih =>
    obtain ⟨rounds,rfl⟩ : ∃ k, rounds = k+1 := ⟨rounds-1,by omega⟩
    rw [splitTexts_succ]
    have hs := hstrs s List.mem_cons_self
    cases rest with
    | nil =>
      rw [List.intercalate_singleton]
      have hstop : splitEnd (some sep) 0 s n = s.length := by simp [splitEnd,strstr_piece hsep hs]
      rw [hstop,splitNext,if_pos rfl,List.take_length]
    | cons t rest =>
      rw [List.intercalate_cons_cons] at hrounds ⊢
      have hpos := List.length_pos_of_ne_nil hsep
      have hstop : splitEnd (some sep) 0 (s ++ sep ++ sep.intercalate (t :: rest)) n =
          s.length := by simp [splitEnd,strstr_piece_append hsep hs]
      have hdrop : (s ++ sep ++ sep.intercalate (t :: rest)).drop (s.length+sep.length) =
          sep.intercalate (t :: rest) := by
        rw [← List.length_append,List.drop_left]
      have htake : (s ++ sep ++ sep.intercalate (t :: rest)).take s.length = s := by
        rw [List.append_assoc,List.take_left]
      simp only [List.length_append] at hrounds
      rw [hstop,splitNext,if_neg (by simp only [List.length_append]; omega),hdrop,htake]
      have hrest := ih (n := n+1) (show _ < rounds by omega) (List.cons_ne_nil t rest)
        fun u hu => hstrs u (List.mem_cons_of_mem s hu)
      simp only [hrest,Option.map_some]

end Pieces

section SplitJoin
variable (fresh : ℕ → ℕ → Bytes) (sep : CString)

/-- Joining the strings that are split off gives the text back; their number is returned, and is
within the limit. -/
def SplitsBack (max : ℤ) (sl : Smartlist Bytes) (str : CString) : Prop :=
  ∃ sl' n, splitString (some sep.bytes) 0 max fresh sl str = some (sl',n) ∧
    n = sl'.items.length ∧ (0 < max → (n : ℤ) ≤ max) ∧
      ∃ r len, joinStrings sep sl' false = some (r,len) ∧ cstr r = str.bytes

/-- Splitting what strings were joined to gives the strings back. -/
def JoinsBack (sl sl₀ : Smartlist Bytes) (strs : List CString) : Prop :=
  ∃ r len, joinStrings sep sl false = some (r,len) ∧
    ∃ sl' n, splitString (some sep.bytes) 0 0 fresh sl₀ ⟨cstr r,cstr_noNul r⟩ = some (sl',n) ∧
      sl'.items = strs.map CString.bytes

variable {fresh} {sep} (hsep : sep.bytes ≠ [])
include hsep

theorem splitTexts_str (max : ℤ) (str : CString) : ∃ ps,
    splitTexts (some sep.bytes) 0 max (str.bytes.length+max.toNat+1) str.bytes 0 = some ps ∧
      sep.bytes.intercalate ps = str.bytes ∧ ps.length = splitCount sep.bytes max str.bytes := by
  obtain ⟨ps,htexts,-,hjoin,hcount⟩ := splitTexts_intercalate hsep max (n := 0)
    (show str.bytes.length < str.bytes.length+max.toNat+1 by omega) id
  refine ⟨ps,htexts,hjoin,?_⟩
  rw [hcount,splitCount,splitCount]
  by_cases hlimit : 0 < max
  · simp [hlimit]
  · simp [hlimit]

theorem splitsBack_iff {sl : Smartlist Bytes} (h : sl.Holds []) (ha : sl.Allocated) (max : ℤ)
    (str : CString) : SplitsBack fresh sep max sl str ↔ splitCount sep.bytes max str.bytes ≤ 2^30 := by
  obtain ⟨ps,htexts,hjoin,hcount⟩ := splitTexts_str hsep max str
  constructor
  · rintro ⟨sl',n,hrun,-⟩
    obtain ⟨strings,htexts',hlen⟩ := (splitLoop_iff h ha).mp ⟨_,hrun⟩
    cases htexts.symm.trans htexts'
    rw [← hcount]
    simpa using hlen
  · intro hlen
    obtain ⟨sl',hrun,hold⟩ := splitLoop_holds h fresh htexts
      (by rw [List.length_nil,hcount]; omega)
    rw [Nat.zero_add] at hrun
    rw [List.nil_append] at hold
    have hitems := hold.items_eq
    refine ⟨sl',ps.length,hrun,by rw [hitems],fun hpos => ?_,?_⟩
    · rw [hcount,splitCount,if_pos hpos]
      omega
    · refine ⟨_,_,joinStrings2_eq sep.bytes sl' false,?_⟩
      rw [hitems,hjoin]
      simp only [Bool.false_eq_true,if_false,List.append_nil]
      exact (cstr_append_nul _ _).trans (cstr_eq_self str.noNul)

theorem joinsBack {sl sl₀ : Smartlist Bytes} {strs : List CString}
    (h : sl.Holds (strs.map CString.bytes)) (ha : sl.Allocated) (h₀ : sl₀.Holds [])
    (hne : strs ≠ []) (hstrs : ∀ s ∈ strs, ∀ c ∈ s.bytes, c ∉ sep.bytes) :
    JoinsBack fresh sep sl sl₀ strs := by
  refine ⟨_,_,joinStrings2_eq sep.bytes sl false,?_⟩
  have hcstr : cstr (sep.bytes.intercalate sl.items ++ (if false = true then sep.bytes else []) ++
      [0]) = sep.bytes.intercalate (strs.map CString.bytes) := by
    rw [h.items_eq]
    simp only [Bool.false_eq_true,if_false,List.append_nil]
    refine (cstr_append_nul _ _).trans (cstr_eq_self fun h0 => ?_)
    rcases mem_intercalate h0 with h0 | ⟨t,ht,h0⟩
    · exact sep.noNul h0
    · obtain ⟨s,-,rfl⟩ := List.mem_map.mp ht
      exact s.noNul h0
  have htexts := splitTexts_pieces hsep (n := 0)
    (Nat.lt_succ_self (sep.bytes.intercalate (strs.map CString.bytes)).length)
    (fun hnil => hne (List.map_eq_nil_iff.mp hnil)) fun t ht => by
      obtain ⟨s,hs,rfl⟩ := List.mem_map.mp ht
      exact hstrs s hs
  obtain ⟨sl',hrun,hold⟩ := splitLoop_holds h₀ fresh htexts
    (by simpa using ha.length_le h)
  rw [Nat.zero_add] at hrun
  refine ⟨sl',(strs.map CString.bytes).length,?_,?_⟩
  · rw [splitString]
    simp only [hcstr]
    exact hrun
  · rw [hold.items_eq,List.nil_append]

/-- Joining undoes splitting if and only if at most 2^30 strings are split off. Splitting undoes
joining, and every join writes what it has counted and a terminator. -/
theorem split_join_iff :
    (∀ (sl : Smartlist Bytes) (str : CString) (max : ℤ), sl.Holds [] → sl.Allocated →
      (SplitsBack fresh sep max sl str ↔ splitCount sep.bytes max str.bytes ≤ 2^30)) ∧
    (∀ (sl sl₀ : Smartlist Bytes) (strs : List CString), sl.Holds (strs.map CString.bytes) →
      sl.Allocated → sl₀.Holds [] → strs ≠ [] → (∀ s ∈ strs, ∀ c ∈ s.bytes, c ∉ sep.bytes) →
        JoinsBack fresh sep sl sl₀ strs) ∧
    ∀ (sl : Smartlist Bytes) (join : Bytes) (terminate : Bool), ∃ r,
      joinStrings2 join sl terminate = some (r ++ [0],r.length) ∧
        r.length = joinLength join.length sl.items (if terminate then join.length else 0) := by
  refine ⟨fun sl str max h ha => splitsBack_iff hsep h ha max str,
    fun sl sl₀ strs h ha h₀ hne hstrs => joinsBack hsep h ha h₀ hne hstrs,
    fun sl join terminate => ?_⟩
  have hlen := joinLength_eq join sl.items (if terminate then join.length else 0)
  have hsum : (join.intercalate sl.items ++ if terminate then join else []).length =
      joinLength join.length sl.items (if terminate then join.length else 0) := by
    rw [hlen,List.length_append]
    cases terminate with
    | true => simp only [if_true]; omega
    | false => simp
  refine ⟨join.intercalate sl.items ++ if terminate then join else [],?_,hsum⟩
  rw [joinStrings2_eq,hsum]

end SplitJoin

/-- Commas, with nothing between some of them, up to a limit. -/
theorem split_join_commas :
    SplitsBack (fun _ _ => []) ⟨ascii ",",by decide⟩ 3 (new []) ⟨ascii ",a,,b",by decide⟩ :=
  ((split_join_iff (by decide)).1 (new []) ⟨ascii ",a,,b",by decide⟩ 3 (holds_new _)
    (allocated_new _)).mpr ((min_le_left _ _).trans (by decide))

theorem splitPieces_commas (n : ℕ) :
    (splitPieces (ascii ",") (List.replicate n 44)).length = n+1 := by
  induction n with
  | zero => rw [List.replicate_zero,splitPieces_of_none (by decide),List.length_singleton]
  | succ n ih =>
    rw [List.replicate_succ,splitPieces_of_some (by decide) (i := 0) rfl,
      List.length_cons]
    exact congrArg Nat.succ ih

/-- A text of commas only. -/
def commas (n : ℕ) : CString :=
  ⟨List.replicate n 44,fun h => absurd (List.eq_of_mem_replicate h) (by decide)⟩

theorem not_splitsBack_commas {n : ℕ} (hn : 2^30 ≤ n) :
    ¬ SplitsBack (fun _ _ => []) ⟨ascii ",",by decide⟩ 0 (new []) (commas n) := by
  have hcount : splitCount (ascii ",") 0 (commas n).bytes = n+1 :=
    (if_neg (lt_irrefl 0)).trans (splitPieces_commas n)
  rw [splitsBack_iff (by decide) (holds_new _) (allocated_new _),hcount]
  omega

/-- The string behind the last of 2^30 commas overflows the capacity. -/
theorem split_join_overfull :
    ¬ SplitsBack (fun _ _ => []) ⟨ascii ",",by decide⟩ 0 (new []) (commas 1073741824) :=
  not_splitsBack_commas (by omega)

end Smartlist

end WpaCliWrapper
