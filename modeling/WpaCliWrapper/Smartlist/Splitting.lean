import Mathlib.Logic.Relation
import WpaCliWrapper.Smartlist.Strings

/-! What `smartlist_split_string` splits off with each of its flags, and when it ends. -/
namespace WpaCliWrapper
open CText

namespace Smartlist

/-- A text without the whitespace at its ends. -/
def trim (s : Bytes) : Bytes := (s.dropWhile isSpace).rdropWhile isSpace

section Pieces
variable {sep : Bytes}

/-- What is left of a text without its first characters, if they are all of one kind. -/
theorem dropWhile_take {α : Type*} {p : α → Bool} (l : List α) {n : ℕ}
    (hn : (l.takeWhile p).length ≤ n) :
    (l.take n).dropWhile p = (l.dropWhile p).take (n-(l.takeWhile p).length) := by
  induction l generalizing n with
  | nil => simp
  | cons a l ih =>
    by_cases ha : p a
    · rw [List.takeWhile_cons_of_pos ha,List.length_cons] at hn ⊢
      obtain ⟨n,rfl⟩ : ∃ k, n = k+1 := ⟨n-1,by omega⟩
      rw [List.take_succ_cons,List.dropWhile_cons_of_pos ha,List.dropWhile_cons_of_pos ha,
        ih (by omega),Nat.add_sub_add_right]
    · rw [List.takeWhile_cons_of_neg ha,List.dropWhile_cons_of_neg ha,List.length_nil,Nat.sub_zero]
      cases n with
      | zero => rfl
      | succ n => rw [List.take_succ_cons,List.dropWhile_cons_of_neg ha]

theorem dropWhile_eq_drop {α : Type*} (p : α → Bool) (l : List α) :
    l.dropWhile p = l.drop (l.takeWhile p).length := by
  have hleft : (l.takeWhile p ++ l.dropWhile p).drop (l.takeWhile p).length = l.dropWhile p :=
    List.drop_left
  rw [← hleft,List.takeWhile_append_dropWhile]

section Skipping
variable (hsep : sep ≠ []) (hspace : ∀ c ∈ sep, isSpace c = false)
include hsep hspace

theorem not_occursAt_leading {cp : Bytes} {j : ℕ} (hj : j < (cp.takeWhile isSpace).length) :
    ¬ OccursAt sep cp j := by
  intro hocc
  have hpos := List.length_pos_of_ne_nil hsep
  have hget := hocc.getElem? hpos
  have hle := (List.takeWhile_prefix (p := isSpace) (l := cp)).length_le
  have hlead := (List.takeWhile_prefix (p := isSpace) (l := cp)).getElem hj
  rw [Nat.add_zero,List.getElem?_eq_getElem (by omega),← hlead,
    List.getElem?_eq_getElem hpos,Option.some_inj] at hget
  have hall := List.mem_takeWhile_imp (List.getElem_mem hj)
  rw [hget,hspace _ (List.getElem_mem hpos)] at hall
  cases hall

/-- The separator is found at the same place if leading whitespace is skipped. -/
theorem splitEnd_dropWhile (cp : Bytes) (n : ℕ) :
    (cp.takeWhile isSpace).length ≤ splitEnd (some sep) 0 cp n ∧
      splitEnd (some sep) 0 (cp.dropWhile isSpace) n =
        splitEnd (some sep) 0 cp n-(cp.takeWhile isSpace).length := by
  have hle := (List.takeWhile_prefix (p := isSpace) (l := cp)).length_le
  have hno : ∀ j < (cp.takeWhile isSpace).length, ¬ OccursAt sep cp j :=
    fun j hj => not_occursAt_leading hsep hspace hj
  have hdrop := strstr_drop hle hno
  simp only [splitEnd,lt_irrefl,false_and,if_false]
  rw [dropWhile_eq_drop,hdrop]
  cases hfind : strstr sep cp with
  | none => simp [hle]
  | some i =>
    have hocc := (strstr_eq_some_iff.mp hfind).1
    refine ⟨?_,rfl⟩
    by_contra hlt
    exact hno i (by simpa using hlt) hocc

variable (flags : ℕ)

/-- No flag changes where a round goes on. -/
theorem splitAfter_flags (cp : Bytes) (n : ℕ) :
    splitAfter (some sep) flags 0 cp n = splitAfter (some sep) 0 0 cp n := by
  by_cases hskip : flags &&& splitSkipSpace ≠ 0
  · obtain ⟨hstop,heq⟩ := splitEnd_dropWhile hsep hspace cp n
    have hend := splitEnd_le (some sep) 0 cp n
    have hadd : (cp.takeWhile isSpace).length+
        (splitEnd (some sep) 0 cp n-(cp.takeWhile isSpace).length+sep.length) =
          splitEnd (some sep) 0 cp n+sep.length := by omega
    rw [splitAfter,splitSkip,if_pos hskip,splitNext,heq,dropWhile_eq_drop,List.length_drop]
    simp only [List.drop_drop,hadd]
    refine if_congr ?_ rfl rfl
    change _ ↔ splitEnd (some sep) 0 cp n = cp.length
    omega
  · rw [splitAfter,splitSkip,if_neg hskip]
    rfl

/-- The end of a piece is where it is without flags, its start behind leading whitespace. -/
theorem splitBack_piece (cp : Bytes) (n : ℕ) :
    splitBack flags (splitPiece (some sep) flags 0 cp n) =
      if flags &&& splitSkipSpace ≠ 0 then trim (splitPiece (some sep) 0 0 cp n)
      else splitPiece (some sep) 0 0 cp n := by
  by_cases hskip : flags &&& splitSkipSpace ≠ 0
  · obtain ⟨hstop,heq⟩ := splitEnd_dropWhile hsep hspace cp n
    rw [if_pos hskip,splitBack,if_pos hskip,splitPiece,splitSkip,if_pos hskip,heq,trim]
    rw [← dropWhile_take cp hstop]
    rfl
  · rw [if_neg hskip,splitBack,if_neg hskip,splitPiece,splitSkip,if_neg hskip]
    rfl

end Skipping

/-- Without flags one round takes the first piece. -/
theorem splitPieces_eq (hsep : sep ≠ []) (cp : Bytes) (n : ℕ) :
    splitPieces sep cp = splitPiece (some sep) 0 0 cp n ::
      (splitAfter (some sep) 0 0 cp n).elim [] (splitPieces sep) := by
  have hskip : splitSkip 0 cp = cp := rfl
  have hpos := List.length_pos_of_ne_nil hsep
  simp only [splitPiece,splitAfter,hskip,splitNext,splitEnd,lt_irrefl,false_and,if_false]
  cases hfind : strstr sep cp with
  | none =>
    rw [splitPieces_of_none hfind]
    simp
  | some i =>
    have hlen := (strstr_eq_some_iff.mp hfind).1.length_le
    rw [splitPieces_of_some hsep hfind,Option.getD_some,if_neg (by omega)]
    rfl

/-- What is appended for a piece. -/
def splitKept (flags : ℕ) (piece : Bytes) : List Bytes :=
  let string := if flags &&& splitSkipSpace ≠ 0 then trim piece else piece
  if string ≠ [] ∨ flags &&& splitIgnoreBlank = 0 then
    [if flags &&& splitSkipSpace ≠ 0 then smpStrstrip string [32] else string]
  else []

/-- Each piece is appended as the flags say. -/
theorem splitTexts_flags (flags : ℕ) (hsep : sep ≠ []) (hspace : ∀ c ∈ sep, isSpace c = false)
    {rounds : ℕ} (n : ℕ) {cp : Bytes} (hrounds : cp.length < rounds) :
    splitTexts (some sep) flags 0 rounds cp n =
      some ((splitPieces sep cp).flatMap (splitKept flags)) := by
  induction rounds generalizing n cp with
  | zero => omega
  | succ rounds ih =>
    have hstored : splitStored flags (splitPiece (some sep) flags 0 cp n) =
        splitKept flags (splitPiece (some sep) 0 0 cp n) := by
      rw [splitStored,splitBack_piece hsep hspace flags cp n,splitKept]
    rw [splitTexts,hstored,splitPieces_eq hsep cp n,List.flatMap_cons,
      splitAfter_flags hsep hspace flags cp n]
    cases hafter : splitAfter (some sep) 0 0 cp n with
    | none => simp
    | some cp' =>
      have hshort := (splitAfter_suffix hafter).2 (by simpa using hsep)
      simp [ih _ (show cp'.length < rounds by omega)]

variable {fresh : ℕ → ℕ → Bytes} {flags : ℕ} {sl : Smartlist Bytes} {str : CString}

/-- A call with no limit appends exactly these strings. -/
def Appends (fresh : ℕ → ℕ → Bytes) (sep : Bytes) (flags : ℕ) (sl : Smartlist Bytes)
    (str : CString) (strings : List Bytes) : Prop :=
  ∃ sl' n, splitString (some sep) flags 0 fresh sl str = some (sl',n) ∧
    sl'.items = sl.items ++ strings

theorem Appends.unique {strings strings' : List Bytes}
    (h : Appends fresh sep flags sl str strings) (h' : Appends fresh sep flags sl str strings') :
    strings = strings' := by
  obtain ⟨sl₁,n,hrun,hitems⟩ := h
  obtain ⟨sl₂,n',hrun',hitems'⟩ := h'
  obtain ⟨rfl,-⟩ := Prod.mk.inj (Option.some.inj (hrun.symm.trans hrun'))
  exact List.append_cancel_left (hitems.symm.trans hitems')

theorem splitTexts_kept (hsep : sep ≠ []) (hspace : ∀ c ∈ sep, isSpace c = false) (flags : ℕ)
    (str : CString) :
    splitTexts (some sep) flags 0 (str.bytes.length+(0 : ℤ).toNat+1) str.bytes 0 =
      some ((splitPieces sep str.bytes).flatMap (splitKept flags)) :=
  splitTexts_flags flags hsep hspace 0 (by omega)

theorem appends_kept (hsep : sep ≠ []) (hspace : ∀ c ∈ sep, isSpace c = false) {xs : List Bytes}
    (h : sl.Holds xs) (fresh : ℕ → ℕ → Bytes) (flags : ℕ) (str : CString)
    (hlen : xs.length+((splitPieces sep str.bytes).flatMap (splitKept flags)).length ≤ 2^30) :
    Appends fresh sep flags sl str ((splitPieces sep str.bytes).flatMap (splitKept flags)) := by
  obtain ⟨sl',hrun,hold⟩ := splitLoop_holds h fresh (splitTexts_kept hsep hspace flags str) hlen
  exact ⟨sl',_,hrun,by rw [hold.items_eq,h.items_eq]⟩

/-- No string is appended beyond the last power of two. -/
theorem Appends.length_le (hsep : sep ≠ []) (hspace : ∀ c ∈ sep, isSpace c = false)
    {xs : List Bytes} (h : sl.Holds xs) (ha : sl.Allocated) {strings : List Bytes}
    (happends : Appends fresh sep flags sl str strings) :
    xs.length+((splitPieces sep str.bytes).flatMap (splitKept flags)).length ≤ 2^30 := by
  obtain ⟨sl',n,hrun,-⟩ := happends
  obtain ⟨strings',htexts,hlen⟩ := (splitLoop_iff h ha).mp ⟨_,hrun⟩
  cases (splitTexts_kept hsep hspace flags str).symm.trans htexts
  exact hlen

theorem flatMap_kept_zero (pieces : List Bytes) :
    pieces.flatMap (splitKept 0) = pieces := by
  induction pieces with
  | nil => rfl
  | cons p pieces ih => simpa [splitKept] using ih

theorem flatMap_kept_skip (pieces : List Bytes) : pieces.flatMap (splitKept splitSkipSpace) =
    pieces.map fun p => smpStrstrip (trim p) [32] := by
  induction pieces with
  | nil => rfl
  | cons p pieces ih => simpa [splitKept,splitSkipSpace,splitIgnoreBlank] using ih

theorem flatMap_kept_ignore (pieces : List Bytes) :
    pieces.flatMap (splitKept (splitSkipSpace ||| splitIgnoreBlank)) =
      ((pieces.map trim).filter (!·.isEmpty)).map fun s => smpStrstrip s [32] := by
  induction pieces with
  | nil => rfl
  | cons p pieces ih =>
    rw [List.flatMap_cons,ih]
    by_cases hp : trim p = [] <;> simp [splitKept,splitSkipSpace,splitIgnoreBlank,hp]

theorem smpStrstrip_eq_self_iff {s : Bytes} : smpStrstrip s [32] = s ↔ 32 ∉ s := by
  rw [smpStrstrip,List.filter_eq_self]
  constructor
  · intro hall hmem
    simpa using hall 32 hmem
  · intro hno c hc
    have : c ≠ 32 := fun h => hno (h ▸ hc)
    simpa using this

end Pieces

/-- Whitespace is removed from the ends of the pieces only, if and only if no piece has a space
between other characters and the smartlist has room for all of them. -/
theorem split_trims (fresh : ℕ → ℕ → Bytes) (sep str : CString) (hsep : sep.bytes ≠ [])
    (hspace : ∀ c ∈ sep.bytes, isSpace c = false) {sl : Smartlist Bytes} {xs : List Bytes}
    (h : sl.Holds xs) (ha : sl.Allocated) :
    (∃ pieces, Appends fresh sep.bytes 0 sl str pieces ∧
      Appends fresh sep.bytes splitSkipSpace sl str (pieces.map trim) ∧
      Appends fresh sep.bytes (splitSkipSpace ||| splitIgnoreBlank) sl str
        ((pieces.map trim).filter (!·.isEmpty))) ↔
      (∀ p ∈ splitPieces sep.bytes str.bytes, 32 ∉ trim p) ∧
        xs.length+(splitPieces sep.bytes str.bytes).length ≤ 2^30 := by
  have hlength : ∀ {strings}, Appends fresh sep.bytes 0 sl str strings →
      xs.length+(splitPieces sep.bytes str.bytes).length ≤ 2^30 := fun h₀ => by
    have := h₀.length_le hsep hspace h ha
    rwa [flatMap_kept_zero] at this
  have happends := fun flags => appends_kept hsep hspace h fresh flags str
  have hpieces := happends 0
  have hskip := happends splitSkipSpace
  have hignore := happends (splitSkipSpace ||| splitIgnoreBlank)
  rw [flatMap_kept_zero] at hpieces
  rw [flatMap_kept_skip,List.length_map] at hskip
  rw [flatMap_kept_ignore,List.length_map] at hignore
  constructor
  · rintro ⟨pieces,h₀,h₁,-⟩
    have hlen := hlength h₀
    obtain rfl := h₀.unique (hpieces hlen)
    refine ⟨fun p hp => ?_,hlen⟩
    have hmap := List.map_inj_left.mp ((hskip hlen).unique h₁) p hp
    exact smpStrstrip_eq_self_iff.mp hmap
  · rintro ⟨hno,hlen⟩
    have htrim : ∀ s ∈ (splitPieces sep.bytes str.bytes).map trim, smpStrstrip s [32] = s := by
      intro s hs
      obtain ⟨p,hp,rfl⟩ := List.mem_map.mp hs
      exact smpStrstrip_eq_self_iff.mpr (hno p hp)
    have hfilter := List.length_filter_le (!·.isEmpty)
      ((splitPieces sep.bytes str.bytes).map trim)
    rw [List.length_map] at hfilter
    have hblank := hignore (by omega)
    refine ⟨splitPieces sep.bytes str.bytes,hpieces hlen,?_,?_⟩
    · rw [← List.map_congr_left fun p hp => htrim _ (List.mem_map_of_mem hp)]
      exact hskip hlen
    · rw [List.map_congr_left fun s hs => htrim s (List.mem_of_mem_filter hs),List.map_id'] at hblank
      exact hblank

/-- Whitespace around words and a blank piece. -/
theorem split_trims_words : ∃ pieces,
    Appends (fun _ _ => []) (ascii ",") 0 (new []) ⟨ascii " a,, b ",by decide⟩ pieces ∧
      Appends (fun _ _ => []) (ascii ",") splitSkipSpace (new []) ⟨ascii " a,, b ",by decide⟩
        (pieces.map trim) ∧
      Appends (fun _ _ => []) (ascii ",") (splitSkipSpace ||| splitIgnoreBlank) (new [])
        ⟨ascii " a,, b ",by decide⟩ ((pieces.map trim).filter (!·.isEmpty)) := by
  have hpieces : splitPieces (ascii ",") (ascii " a,, b ") =
      [ascii " a",[],ascii " b "] := by
    rw [splitPieces_of_some (by decide) (i := 2) (by decide)]
    rw [splitPieces_of_some (by decide) (i := 0) (by decide)]
    rw [splitPieces_of_none (by decide)]
    rfl
  have hcomma : ∀ c ∈ ascii ",", isSpace c = false := by
    intro c hc
    rw [List.mem_singleton.mp hc]
    rfl
  refine (split_trims (fun _ _ => []) ⟨ascii ",",by decide⟩ ⟨ascii " a,, b ",by decide⟩ (by decide)
    hcomma (holds_new []) (allocated_new [])).mpr ⟨fun p hp => ?_,by rw [hpieces]; decide⟩
  rw [hpieces] at hp
  simp only [List.mem_cons,List.not_mem_nil,or_false] at hp
  obtain rfl | rfl | rfl := hp <;> decide

/-- The space inside of the only piece is removed. -/
theorem split_removes_inner_space : ¬ ∃ pieces,
    Appends (fun _ _ => []) (ascii ",") 0 (new []) ⟨ascii "a b",by decide⟩ pieces ∧
      Appends (fun _ _ => []) (ascii ",") splitSkipSpace (new []) ⟨ascii "a b",by decide⟩
        (pieces.map trim) ∧
      Appends (fun _ _ => []) (ascii ",") (splitSkipSpace ||| splitIgnoreBlank) (new [])
        ⟨ascii "a b",by decide⟩ ((pieces.map trim).filter (!·.isEmpty)) := by
  rintro ⟨pieces,hpieces,hskip,-⟩
  obtain rfl := hpieces.unique (show Appends _ _ _ _ _ [ascii "a b"] from ⟨_,_,rfl,rfl⟩)
  have hruns := hskip.unique (show Appends _ _ _ _ _ [ascii "ab"] from ⟨_,_,rfl,rfl⟩)
  exact absurd hruns (by decide)

end Smartlist

end WpaCliWrapper
