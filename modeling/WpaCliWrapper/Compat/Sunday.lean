import WpaCliWrapper.CText.Bytes
import WpaCliWrapper.CText.Substring
import Mathlib.Logic.Relation

/-! The substring search of `compat.c`, which skips windows of the text by the character after
them. -/
namespace WpaCliWrapper
open CText

/-- The greatest `int`. -/
def intMax : ℕ := 0x7fffffff

section Search

/-- The inner loop: how many characters are equal before the first that are not. -/
def matchLen : Bytes → Bytes → ℕ
  | a :: l, b :: p => if a = b then matchLen l p+1 else 0
  | _, _ => 0

/-- The loop that looks for the character from the end of the pattern, below some index. -/
def lastIndex (s2 : Bytes) (c : UInt8) : ℕ → ℤ
  | 0 => -1
  | k+1 => if s2[k]? = some c then k else lastIndex s2 c k

/-- How far the window moves. The character after the last window is the terminator. -/
def skip (s1 s2 : Bytes) (ind : ℕ) : ℕ :=
  let k := lastIndex s2 (s1.getD (ind+s2.length) 0) s2.length
  if 0 < k then s2.length-k.toNat else s2.length+1

/-- The loop over the windows, for at most some rounds. A sum that is no `int` is a fault. -/
def sundayLoop (s1 s2 : Bytes) : ℕ → ℕ → Option ℤ
  | 0, _ => none
  | rounds+1, ind =>
    if intMax < ind+s2.length then none
    else if ind+s2.length ≤ s1.length then
      if matchLen (s1.drop ind) s2 = s2.length then some ind
      else sundayLoop s1 s2 rounds (ind+skip s1 s2 ind)
    else some (-1)

/-- `smp_sunday_search`. The lengths are stored as `int`. -/
def smpSundaySearch (s1 s2 : CString) : Option ℤ :=
  if s1.bytes.length ≤ intMax ∧ s2.bytes.length ≤ intMax then
    sundayLoop s1.bytes s2.bytes (s1.bytes.length+2) 0
  else none

end Search

/-- The least index at which the pattern occurs, or -1. -/
def firstIndex (s1 s2 : Bytes) : ℤ := (strstr s2 s1).elim (-1) Nat.cast

/-- The distance between two windows, by the character after the first: it is the distance of the
character from the end of the pattern, but its first position does not count. -/
def shift (s2 : Bytes) (c : UInt8) : ℕ :=
  if c ∈ s2.tail then s2.reverse.idxOf c+1 else s2.length+1

/-- The window after one in which the pattern does not occur. -/
def NextWindow (s1 s2 : Bytes) (i j : ℕ) : Prop :=
  i+s2.length ≤ s1.length ∧ ¬ OccursAt s2 s1 i ∧ j = i+shift s2 (s1.getD (i+s2.length) 0)

/-- The window can be handled: its end is an `int`, and the pattern does not occur right after it
with a first character that it has nowhere else. -/
def Handled (s1 s2 : Bytes) (i : ℕ) : Prop :=
  i+s2.length ≤ intMax ∧ (OccursAt s2 s1 i ∨ ¬ OccursAt s2 s1 (i+s2.length) ∨
    ∃ c ∈ s2.head?, c ∈ s2.tail)

section Shift
variable {s1 s2 : Bytes}

theorem matchLen_eq_iff {l p : Bytes} : matchLen l p = p.length ↔ p <+: l := by
  induction l generalizing p with
  | nil => cases p <;> simp [matchLen]
  | cons a l ih =>
    cases p with
    | nil => simp [matchLen]
    | cons b p =>
      rw [matchLen,List.cons_prefix_cons]
      split
      · rename_i h
        simp [h,ih]
      · rename_i h
        simp [eq_comm,h]

theorem lastIndex_lt (c : UInt8) (n : ℕ) : lastIndex s2 c n < n := by
  induction n with
  | zero => exact Int.negSucc_lt_zero 0
  | succ n ih =>
    rw [lastIndex]
    split <;> omega

theorem le_lastIndex {c : UInt8} {n q : ℕ} (hq : q < n) (hc : s2[q]? = some c) :
    (q : ℤ) ≤ lastIndex s2 c n := by
  induction n with
  | zero => omega
  | succ n ih =>
    rw [lastIndex]
    split
    · omega
    · rename_i h
      have hne : q ≠ n := fun heq => h (heq ▸ hc)
      exact ih (by omega)

theorem lastIndex_append {t : Bytes} (u : Bytes) (c : UInt8) {n : ℕ} (hn : n ≤ t.length) :
    lastIndex (t ++ u) c n = lastIndex t c n := by
  induction n with
  | zero => rfl
  | succ n ih => rw [lastIndex,lastIndex,List.getElem?_append_left hn,ih (by omega)]

theorem lastIndex_eq (s2 : Bytes) (c : UInt8) :
    lastIndex s2 c s2.length = s2.length-1-s2.reverse.idxOf c := by
  induction s2 using List.reverseRecOn with
  | nil => rfl
  | append_singleton t d ih =>
    rw [List.length_append,List.length_singleton,lastIndex,lastIndex_append _ _ (le_refl _),ih]
    by_cases h : d = c
    · simp [h]
    · simp [h]
      omega

theorem skip_eq_shift (i : ℕ) : skip s1 s2 i = shift s2 (s1.getD (i+s2.length) 0) := by
  have hmem : ∀ c : UInt8, c ∈ s2.tail ↔ s2.reverse.idxOf c+1 < s2.length := by
    intro c
    rw [← List.mem_reverse,← List.dropLast_reverse]
    by_cases hc : c ∈ s2.reverse
    · rw [List.mem_dropLast_iff_idxOf_lt hc,List.length_reverse]
      omega
    · have hlen := List.idxOf_eq_length hc
      rw [List.length_reverse] at hlen
      exact iff_of_false (fun h => hc (List.mem_of_mem_dropLast h)) (by omega)
  unfold skip shift
  simp only [lastIndex_eq,hmem]
  split <;> split <;> omega

/-- No occurrence is between a window and the next one, except one right after the window that
starts with a character the pattern has nowhere else. -/
theorem shift_le {i p : ℕ} (hp : OccursAt s2 s1 p) (hip : i < p) :
    i+shift s2 (s1.getD (i+s2.length) 0) ≤ p ∨
      p = i+s2.length ∧ ∀ c ∈ s2.head?, c ∉ s2.tail := by
  rw [← skip_eq_shift,skip]
  have hlen := hp.length_le
  have hmax : lastIndex s2 (s1.getD (i+s2.length) 0) s2.length < s2.length := lastIndex_lt _ _
  by_cases hle : p ≤ i+s2.length
  swap
  · left
    split <;> omega
  -- the position in the pattern of the character after the window
  have hq : i+s2.length-p < s2.length := by omega
  have hchar : s2[i+s2.length-p]? = some (s1.getD (i+s2.length) 0) := by
    have hget := hp.getElem? hq
    rw [Nat.add_sub_cancel' hle] at hget
    rw [← hget,List.getD_eq_getElem?_getD]
    obtain ⟨c,hc⟩ : ∃ c, s1[i+s2.length]? = some c :=
      ⟨_,hget.trans (List.getElem?_eq_getElem hq)⟩
    rw [hc]
    rfl
  have hlast := le_lastIndex hq hchar
  by_cases hk : 0 < lastIndex s2 (s1.getD (i+s2.length) 0) s2.length
  · left
    rw [if_pos hk]
    omega
  · right
    refine ⟨by omega,fun c hc hmem => ?_⟩
    obtain ⟨j,hj⟩ := List.mem_iff_getElem?.mp hmem
    rw [List.getElem?_tail] at hj
    have hzero : i+s2.length-p = 0 := by omega
    rw [hzero,← List.head?_eq_getElem?,hc] at hchar
    cases hchar
    have := le_lastIndex (List.getElem?_eq_some_iff.mp hj).1 hj
    omega

theorem shift_bounds (s2 : Bytes) (c : UInt8) : 0 < shift s2 c ∧ shift s2 c ≤ s2.length+1 := by
  have := s2.reverse.idxOf_le_length (a := c)
  rw [List.length_reverse] at this
  unfold shift
  split <;> omega

end Shift

section Walk
variable {s1 s2 : Bytes}

theorem firstIndex_eq_iff {i : ℕ} :
    firstIndex s1 s2 = i ↔ OccursAt s2 s1 i ∧ ∀ j < i, ¬ OccursAt s2 s1 j := by
  rw [← strstr_eq_some_iff,firstIndex]
  cases strstr s2 s1 with
  | none => simp
  | some p => exact Int.natCast_inj.trans (Option.some_inj (a := p)).symm

theorem firstIndex_eq_neg_iff : firstIndex s1 s2 = -1 ↔ ∀ i, ¬ OccursAt s2 s1 i := by
  rw [← strstr_eq_none_iff,firstIndex]
  cases strstr s2 s1 <;> simp

/-- The search does not go back. -/
theorem sundayLoop_ge {rounds i : ℕ} {r : ℤ} (h : sundayLoop s1 s2 rounds i = some r) :
    r = -1 ∨ (i : ℤ) ≤ r := by
  induction rounds generalizing i with
  | zero => cases h
  | succ rounds ih =>
    rw [sundayLoop] at h
    split at h
    · cases h
    split at h
    · split at h
      · cases h
        exact .inr (Int.le_refl _)
      · rcases ih h with hr | hr
        · exact .inl hr
        · exact .inr (by omega)
    · cases h
      exact .inl rfl

/-- A window right before the first occurrence, which starts with a character that the pattern has
nowhere else. -/
theorem sundayLoop_misses {rounds i : ℕ} (hbefore : ∀ p ≤ i, ¬ OccursAt s2 s1 p)
    (hafter : OccursAt s2 s1 (i+s2.length)) (honce : ∀ c ∈ s2.head?, c ∉ s2.tail) :
    sundayLoop s1 s2 rounds (i+shift s2 (s1.getD (i+s2.length) 0)) ≠ some (firstIndex s1 s2) := by
  have hlen := hafter.length_le
  -- the character after the window is the first one of the pattern
  have hshift : shift s2 (s1.getD (i+s2.length) 0) = s2.length+1 := by
    cases s2 with
    | nil => exact absurd hafter (hbefore i (le_refl i))
    | cons c p =>
      have hc := hafter.getElem? (j := 0) (Nat.succ_pos _)
      rw [List.getElem?_cons_zero,Nat.add_zero] at hc
      rw [shift,List.getD_eq_getElem?_getD,hc]
      exact if_neg (honce c rfl)
  intro h
  rcases sundayLoop_ge h with hr | hr
  · exact firstIndex_eq_neg_iff.mp hr _ hafter
  · obtain ⟨p,hp⟩ : ∃ p : ℕ, firstIndex s1 s2 = p := ⟨(firstIndex s1 s2).toNat,by omega⟩
    have hfirst := (firstIndex_eq_iff.mp hp).2 (i+s2.length) (by omega)
    exact hfirst hafter

theorem handled_last {i : ℕ} (hno : ∀ j, ¬ NextWindow s1 s2 i j) :
    (∀ j, Relation.ReflTransGen (NextWindow s1 s2) i j → Handled s1 s2 j) ↔ Handled s1 s2 i := by
  refine ⟨fun h => h i .refl,fun h j hj => ?_⟩
  rcases Relation.ReflTransGen.cases_head hj with rfl | ⟨k,hk,-⟩
  · exact h
  · exact absurd hk (hno k)

theorem handled_next {i k : ℕ} (hnext : NextWindow s1 s2 i k) :
    (∀ j, Relation.ReflTransGen (NextWindow s1 s2) i j → Handled s1 s2 j) ↔
      Handled s1 s2 i ∧ ∀ j, Relation.ReflTransGen (NextWindow s1 s2) k j → Handled s1 s2 j := by
  refine ⟨fun h => ⟨h i .refl,fun j hj => h j (.head hnext hj)⟩,fun h j hj => ?_⟩
  rcases Relation.ReflTransGen.cases_head hj with rfl | ⟨k',hk,hj'⟩
  · exact h.1
  · obtain rfl : k' = k := hk.2.2.trans hnext.2.2.symm
    exact h.2 j hj'

/-- The windows that the shift leaves out have no occurrence, but for the missed one. -/
theorem not_occurs_shifted {i : ℕ} (hbefore : ∀ p ≤ i, ¬ OccursAt s2 s1 p)
    (hmiss : ¬ (OccursAt s2 s1 (i+s2.length) ∧ ∀ c ∈ s2.head?, c ∉ s2.tail)) :
    ∀ p < i+shift s2 (s1.getD (i+s2.length) 0), ¬ OccursAt s2 s1 p := by
  intro p hp hocc
  have hip : i < p := by
    by_contra hle
    exact hbefore p (by omega) hocc
  rcases shift_le hocc hip with hle | ⟨rfl,honce⟩
  · omega
  · exact hmiss ⟨hocc,honce⟩

/-- From a window with no occurrence before it the search finds the first one exactly if it can
handle all windows that follow. -/
theorem sundayLoop_eq_iff {rounds i : ℕ} (hrounds : s1.length+2 ≤ i+rounds)
    (hi : i ≤ s1.length+1) (hbefore : ∀ p < i, ¬ OccursAt s2 s1 p) :
    sundayLoop s1 s2 rounds i = some (firstIndex s1 s2) ↔
      ∀ j, Relation.ReflTransGen (NextWindow s1 s2) i j → Handled s1 s2 j := by
  induction rounds generalizing i with
  | zero => omega
  | succ rounds ih =>
    rw [sundayLoop]
    by_cases hmax : intMax < i+s2.length
    · rw [if_pos hmax]
      refine iff_of_false (fun h => by cases h) fun h => ?_
      have := (h i .refl).1
      omega
    rw [if_neg hmax]
    by_cases hin : i+s2.length ≤ s1.length
    swap
    · rw [if_neg hin,handled_last fun j hj => hin hj.1]
      have hno : ∀ p, ¬ OccursAt s2 s1 p := fun p hp => by
        have := hp.length_le
        exact hbefore p (by omega) hp
      exact iff_of_true (congrArg some (firstIndex_eq_neg_iff.mpr hno).symm)
        ⟨by omega,.inr (.inl (hno _))⟩
    rw [if_pos hin]
    by_cases hocc : OccursAt s2 s1 i
    · rw [if_pos (matchLen_eq_iff.mpr hocc.2),handled_last fun j hj => hj.2.1 hocc]
      exact iff_of_true (congrArg some (firstIndex_eq_iff.mpr ⟨hocc,hbefore⟩).symm)
        ⟨by omega,.inl hocc⟩
    rw [if_neg fun h => hocc ⟨by omega,matchLen_eq_iff.mp h⟩,skip_eq_shift]
    have hbefore' : ∀ p ≤ i, ¬ OccursAt s2 s1 p := fun p hp => by
      rcases Nat.lt_or_eq_of_le hp with hlt | rfl
      · exact hbefore p hlt
      · exact hocc
    have hnext : NextWindow s1 s2 i (i+shift s2 (s1.getD (i+s2.length) 0)) := ⟨hin,hocc,rfl⟩
    have hbounds := shift_bounds s2 (s1.getD (i+s2.length) 0)
    by_cases hmiss : OccursAt s2 s1 (i+s2.length) ∧ ∀ c ∈ s2.head?, c ∉ s2.tail
    · refine iff_of_false (sundayLoop_misses hbefore' hmiss.1 hmiss.2) fun h => ?_
      rcases (h i .refl).2 with h | h | ⟨c,hc,hmem⟩
      · exact hocc h
      · exact h hmiss.1
      · exact hmiss.2 c hc hmem
    · rw [ih (by omega) (by omega) (not_occurs_shifted hbefore' hmiss),handled_next hnext]
      refine ⟨fun h => ⟨⟨by omega,.inr ?_⟩,h⟩,And.right⟩
      by_cases hafter : OccursAt s2 s1 (i+s2.length)
      · right
        by_contra hnone
        exact hmiss ⟨hafter,fun c hc hmem => hnone ⟨c,hc,hmem⟩⟩
      · exact .inl hafter

end Walk

/-- The search finds the first occurrence exactly if it can handle every window it comes to. -/
theorem smpSundaySearch_iff {s1 s2 : CString} (h1 : s1.bytes.length < intMax)
    (h2 : s2.bytes.length < intMax) :
    smpSundaySearch s1 s2 = some (firstIndex s1.bytes s2.bytes) ↔
      ∀ i, Relation.ReflTransGen (NextWindow s1.bytes s2.bytes) 0 i →
        Handled s1.bytes s2.bytes i := by
  rw [smpSundaySearch,if_pos ⟨h1.le,h2.le⟩]
  exact sundayLoop_eq_iff (by omega) (Nat.zero_le _) fun p hp => absurd hp (Nat.not_lt_zero p)

/-- The pattern is right after the first window. -/
theorem smpSundaySearch_xyab : (ascii "xyab").length < intMax ∧ (ascii "ab").length < intMax ∧
    OccursAt (ascii "ab") (ascii "xyab") 2 ∧
    smpSundaySearch ⟨ascii "xyab",by decide⟩ ⟨ascii "ab",by decide⟩ = some (-1) := by
  decide

theorem smpSundaySearch_xab : smpSundaySearch ⟨ascii "xab",by decide⟩ ⟨ascii "ab",by decide⟩ =
    some (firstIndex (ascii "xab") (ascii "ab")) := by
  refine (smpSundaySearch_iff (by decide) (by decide)).mpr fun i hi => ?_
  rcases Relation.ReflTransGen.cases_head hi with rfl | ⟨j,⟨-,-,rfl⟩,hj⟩
  · exact ⟨by decide,.inr (.inl (by decide))⟩
  · rcases Relation.ReflTransGen.cases_head hj with rfl | ⟨k,hk,-⟩
    · exact ⟨by decide,.inl (by decide)⟩
    · exact absurd (by decide) hk.2.1

end WpaCliWrapper
