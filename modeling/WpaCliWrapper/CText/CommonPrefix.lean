import Mathlib.Data.List.Infix

/-! How far texts agree from their start on. -/
namespace CText
variable {α : Type*} [DecidableEq α]

/-- The number of cells up to the first difference. -/
def commonLen : List α → List α → ℕ
  | x :: a, y :: b => if x = y then commonLen a b+1 else 0
  | _, _ => 0

/-- The least of these numbers, for one text against several others. -/
def maxCommonLength (a : List α) (others : List (List α)) : ℕ :=
  others.foldl (fun len b => if commonLen a b < len then commonLen a b else len) a.length

/-- A start of the one is a start of the other exactly up to the first difference. -/
theorem prefix_iff_le_commonLen {a b q : List α} (hq : q <+: a) :
    q <+: b ↔ q.length ≤ commonLen a b := by
  induction a generalizing b q with
  | nil =>
    rw [List.prefix_nil.mp hq]
    simp
  | cons x a ih =>
    cases q with
    | nil => simp
    | cons z q =>
      obtain ⟨rfl,htail⟩ := List.cons_prefix_cons.mp hq
      cases b with
      | nil => simp [commonLen]
      | cons y b =>
        rw [commonLen,List.cons_prefix_cons]
        by_cases hy : z = y
        · rw [if_pos hy,ih htail,List.length_cons,Nat.succ_le_succ_iff]
          exact and_iff_right hy
        · simp [hy]

/-- The loop over the other texts finds the least number. -/
theorem le_maxCommonLength_iff {a : List α} {others : List (List α)} {n : ℕ} :
    n ≤ maxCommonLength a others ↔ n ≤ a.length ∧ ∀ b ∈ others, n ≤ commonLen a b := by
  have hrun : ∀ len, n ≤ others.foldl
      (fun len b => if commonLen a b < len then commonLen a b else len) len ↔
        n ≤ len ∧ ∀ b ∈ others, n ≤ commonLen a b := by
    induction others with
    | nil => simp
    | cons b others ih =>
      intro len
      have hmin : (if commonLen a b < len then commonLen a b else len) = min len (commonLen a b) := by
        split <;> omega
      rw [List.foldl_cons,ih,hmin,Nat.le_min,List.forall_mem_cons,and_assoc]
  exact hrun a.length

theorem maxCommonLength_le (a : List α) (others : List (List α)) :
    maxCommonLength a others ≤ a.length := (le_maxCommonLength_iff.mp le_rfl).1

/-- A text is a start of all of them exactly when it is a start of what they have in common. -/
theorem prefix_common_iff {a q : List α} {others : List (List α)} :
    q <+: a.take (maxCommonLength a others) ↔ q <+: a ∧ ∀ b ∈ others, q <+: b := by
  rw [List.prefix_take_iff,le_maxCommonLength_iff]
  refine and_congr_right fun hq => ?_
  rw [and_iff_right hq.length_le]
  exact forall₂_congr fun b _ => (prefix_iff_le_commonLen hq).symm

end CText
