import Mathlib.Data.List.Infix

/-! Where one text occurs in another, and where first. -/
namespace CText
variable {α : Type*}

/-- The needle occurs at this offset. -/
def OccursAt (needle l : List α) (i : ℕ) : Prop := i ≤ l.length ∧ needle <+: l.drop i

/-- `strstr`: the offset of the first occurrence. -/
def strstr [DecidableEq α] (needle : List α) : List α → Option ℕ
  | [] => if needle = [] then some 0 else none
  | c :: l => if needle.isPrefixOf (c :: l) then some 0 else (strstr needle l).map (·+1)

section Occurrences
variable {needle l : List α}

theorem occursAt_nil_iff {i : ℕ} : OccursAt needle [] i ↔ i = 0 ∧ needle = [] := by
  simp [OccursAt]

theorem occursAt_zero_iff : OccursAt needle l 0 ↔ needle <+: l := by simp [OccursAt]

theorem occursAt_succ_iff {c : α} {i : ℕ} :
    OccursAt needle (c :: l) (i+1) ↔ OccursAt needle l i := by
  simp [OccursAt]

theorem OccursAt.length_le {i : ℕ} (h : OccursAt needle l i) : i+needle.length ≤ l.length := by
  have hlen := h.2.length_le
  rw [List.length_drop] at hlen
  have := h.1
  omega

/-- The text around an occurrence. -/
theorem OccursAt.eq_append {i : ℕ} (h : OccursAt needle l i) :
    l = l.take i ++ needle ++ l.drop (i+needle.length) := by
  obtain ⟨post,hpost⟩ := h.2
  have hdrop : l.drop (i+needle.length) = post := by
    rw [← List.drop_drop,← hpost,List.drop_left]
  rw [hdrop,List.append_assoc,hpost,List.take_append_drop]

theorem OccursAt.getElem? {i j : ℕ} (h : OccursAt needle l i) (hj : j < needle.length) :
    l[i+j]? = needle[j]? := by
  obtain ⟨post,hpost⟩ := h.2
  rw [← List.getElem?_drop,← hpost,List.getElem?_append_left hj]

theorem occursAt_drop_iff {k i : ℕ} (hk : k ≤ l.length) :
    OccursAt needle (l.drop k) i ↔ OccursAt needle l (k+i) := by
  unfold OccursAt
  rw [List.length_drop,List.drop_drop]
  refine and_congr_left fun _ => ?_
  omega

variable [DecidableEq α]

instance (i : ℕ) : Decidable (OccursAt needle l i) :=
  decidable_of_iff (i ≤ l.length ∧ needle.isPrefixOf (l.drop i)) (by
    rw [List.isPrefixOf_iff_prefix]
    exact Iff.rfl)

theorem strstr_eq_none_iff : strstr needle l = none ↔ ∀ i, ¬ OccursAt needle l i := by
  induction l with
  | nil => simp [strstr,occursAt_nil_iff]
  | cons c l ih =>
    rw [strstr]
    split
    · rename_i h
      rw [List.isPrefixOf_iff_prefix] at h
      refine ⟨fun hnone => (by cases hnone),fun hno => absurd (occursAt_zero_iff.mpr h) (hno 0)⟩
    · rename_i h
      rw [List.isPrefixOf_iff_prefix] at h
      rw [Option.map_eq_none_iff,ih]
      constructor
      · intro hno i
        cases i with
        | zero => rwa [occursAt_zero_iff]
        | succ i => rw [occursAt_succ_iff]; exact hno i
      · intro hno i hi
        exact hno (i+1) (occursAt_succ_iff.mpr hi)

theorem strstr_eq_some_iff {i : ℕ} :
    strstr needle l = some i ↔ OccursAt needle l i ∧ ∀ j < i, ¬ OccursAt needle l j := by
  induction l generalizing i with
  | nil =>
    simp only [strstr,occursAt_nil_iff]
    split
    · rename_i h
      constructor
      · rintro ⟨⟩
        exact ⟨⟨rfl,h⟩,fun j hj => absurd hj (Nat.not_lt_zero j)⟩
      · rintro ⟨⟨rfl,-⟩,-⟩
        rfl
    · rename_i h
      exact ⟨fun hsome => (by cases hsome),fun hi => absurd hi.1.2 h⟩
  | cons c l ih =>
    rw [strstr]
    split
    · rename_i h
      rw [List.isPrefixOf_iff_prefix] at h
      constructor
      · rintro ⟨⟩
        exact ⟨occursAt_zero_iff.mpr h,fun j hj => absurd hj (Nat.not_lt_zero j)⟩
      · rintro ⟨-,hfirst⟩
        cases i with
        | zero => rfl
        | succ i => exact absurd (occursAt_zero_iff.mpr h) (hfirst 0 (Nat.succ_pos i))
    · rename_i h
      rw [List.isPrefixOf_iff_prefix] at h
      rw [Option.map_eq_some_iff]
      constructor
      · rintro ⟨i,hi,rfl⟩
        obtain ⟨hocc,hfirst⟩ := ih.mp hi
        refine ⟨occursAt_succ_iff.mpr hocc,fun j hj => ?_⟩
        cases j with
        | zero => rwa [occursAt_zero_iff]
        | succ j => rw [occursAt_succ_iff]; exact hfirst j (Nat.lt_of_succ_lt_succ hj)
      · rintro ⟨hocc,hfirst⟩
        cases i with
        | zero => exact absurd (occursAt_zero_iff.mp hocc) h
        | succ i =>
          refine ⟨i,ih.mpr ⟨occursAt_succ_iff.mp hocc,fun j hj hj' => ?_⟩,rfl⟩
          exact hfirst (j+1) (Nat.succ_lt_succ hj) (occursAt_succ_iff.mpr hj')

/-- Text in which no occurrence starts may be left out before the search. -/
theorem strstr_drop {k : ℕ} (hk : k ≤ l.length) (hno : ∀ j < k, ¬ OccursAt needle l j) :
    strstr needle (l.drop k) = (strstr needle l).map (·-k) := by
  cases hfind : strstr needle l with
  | none =>
    rw [Option.map_none,strstr_eq_none_iff]
    intro i hi
    exact strstr_eq_none_iff.mp hfind _ ((occursAt_drop_iff hk).mp hi)
  | some i =>
    obtain ⟨hocc,hfirst⟩ := strstr_eq_some_iff.mp hfind
    have hki : k ≤ i := by
      by_contra hlt
      exact hno i (by omega) hocc
    rw [Option.map_some,strstr_eq_some_iff,occursAt_drop_iff hk,Nat.add_sub_cancel' hki]
    refine ⟨hocc,fun j hj hj' => ?_⟩
    exact hfirst (k+j) (by omega) ((occursAt_drop_iff hk).mp hj')

end Occurrences

end CText
