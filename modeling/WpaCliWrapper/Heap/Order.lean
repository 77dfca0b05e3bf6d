import Mathlib.Data.List.Infix
import Mathlib.Order.RelClasses

/-! Binary heaps in a list: the tree in which node `i` has the parent `(i-1)/2`, and lists that are
ordered along its edges except around one node. -/
namespace Heap
variable {α : Type*}

/-- The parent of a node. The root is its own parent. -/
def parent (i : ℕ) : ℕ := (i-1)/2

theorem parent_lt {i : ℕ} (h : 0 < i) : parent i < i := by
  unfold parent
  omega

/-- A node has two children. -/
theorem parent_eq_iff {i k : ℕ} (h : 0 < i) : parent i = k ↔ i = 2*k+1 ∨ i = 2*k+2 := by
  unfold parent
  omega

theorem forall_children {k : ℕ} {P : ℕ → Prop} (hleft : P (2*k+1)) (hright : P (2*k+2)) (i : ℕ)
    (hi : 0 < i) (hp : parent i = k) : P i := by
  rcases (parent_eq_iff hi).mp hp with rfl | rfl
  · exact hleft
  · exact hright

variable (lt : α → α → Prop)

/-- The element at the first node is not before the element at the second. -/
def NotBefore (l : List α) (i j : ℕ) : Prop :=
  ∀ a b, l[i]? = some a → l[j]? = some b → ¬ lt a b

/-- No element is before the one at its parent. -/
def Ordered (l : List α) : Prop := ∀ i, 0 < i → NotBefore lt l i (parent i)

instance [DecidableRel lt] (l : List α) (i j : ℕ) : Decidable (NotBefore lt l i j) :=
  decidable_of_iff (∀ a ∈ l[i]?, ∀ b ∈ l[j]?, ¬ lt a b)
    ⟨fun h a b ha hb => h a ha b hb,fun h a ha b hb => h a b ha hb⟩

instance [DecidableRel lt] (l : List α) : Decidable (Ordered lt l) :=
  decidable_of_iff (∀ i < l.length, 0 < i → NotBefore lt l i (parent i))
    ⟨fun h i hi a b ha => h i (List.getElem?_eq_some_iff.mp ha).1 hi a b ha,fun h i _ hi => h i hi⟩

/-- Only the edges from a node to its children may be out of order. -/
structure DownAt (l : List α) (k : ℕ) : Prop where
  edges : ∀ i, 0 < i → parent i ≠ k → NotBefore lt l i (parent i)
  grand : 0 < k → ∀ i, 0 < i → parent i = k → NotBefore lt l i (parent k)

/-- Only the edge from a node to its parent may be out of order. -/
structure UpAt (l : List α) (k : ℕ) : Prop where
  edges : ∀ i, 0 < i → i ≠ k → NotBefore lt l i (parent i)
  grand : 0 < k → ∀ i, 0 < i → parent i = k → NotBefore lt l i (parent k)

/-- Two elements are exchanged. -/
def exchanged (l : List α) (i j : ℕ) (a b : α) : List α := (l.set i b).set j a

section Exchange
variable {l : List α} {i j : ℕ} {a b : α} (hi : l[i]? = some a) (hj : l[j]? = some b)

@[simp] theorem exchanged_length : (exchanged l i j a b).length = l.length := by
  simp [exchanged]

include hi hj

theorem exchanged_perm : (exchanged l i j a b).Perm l := by
  obtain ⟨hi',rfl⟩ := List.getElem?_eq_some_iff.mp hi
  obtain ⟨hj',rfl⟩ := List.getElem?_eq_some_iff.mp hj
  exact List.set_set_perm hi' hj'

theorem exchanged_left : (exchanged l i j a b)[i]? = some b := by
  obtain ⟨hi',rfl⟩ := List.getElem?_eq_some_iff.mp hi
  rw [exchanged,List.getElem?_set]
  split
  · rename_i h
    cases h
    simpa [hi'] using hj
  · simp [hi']

omit hi in
theorem exchanged_right : (exchanged l i j a b)[j]? = some a := by
  obtain ⟨hj',rfl⟩ := List.getElem?_eq_some_iff.mp hj
  simp [exchanged,hj']

omit hi hj in
theorem exchanged_other {k : ℕ} (hki : k ≠ i) (hkj : k ≠ j) :
    (exchanged l i j a b)[k]? = l[k]? := by
  simp [exchanged,hki.symm,hkj.symm]

omit hi hj in
theorem exchanged_comm (hij : i ≠ j) : exchanged l i j a b = exchanged l j i b a :=
  List.set_comm _ _ hij

end Exchange

variable {lt}

theorem Ordered.take {l : List α} (h : Ordered lt l) (n : ℕ) : Ordered lt (l.take n) := by
  intro i hi a b ha hb
  rw [List.getElem?_take] at ha hb
  split at ha
  · split at hb
    · exact h i hi a b ha hb
    · cases hb
  · cases ha

/-- Every element of an ordered list is at least as late as the root. -/
theorem Ordered.root_le [Std.Asymm lt] [IsOrderConnected α lt] {l : List α} (h : Ordered lt l) (i : ℕ) :
    NotBefore lt l i 0 := by
  induction i using Nat.strongRecOn with
  | ind i ih =>
    intro a r ha hr
    by_cases hi : i = 0
    · subst hi
      cases ha.symm.trans hr
      exact irrefl a
    have hp := parent_lt (Nat.pos_of_ne_zero hi)
    obtain ⟨b,hb⟩ : ∃ b, l[parent i]? = some b :=
      ⟨_,List.getElem?_eq_getElem (Nat.lt_trans hp (List.getElem?_eq_some_iff.mp ha).1)⟩
    exact IsOrderConnected.neg_trans (h i (Nat.pos_of_ne_zero hi) a b ha hb) (ih _ hp b r hb hr)

section Down
variable {l : List α} {k c : ℕ} {a b : α}

/-- A node that no child is before ends the way down. -/
theorem DownAt.ordered (h : DownAt lt l k)
    (hchildren : ∀ i, 0 < i → parent i = k → NotBefore lt l i k) : Ordered lt l := by
  intro i hi
  by_cases hp : parent i = k
  · rw [hp]
    exact hchildren i hi hp
  · exact h.edges i hi hp

/-- The first child comes up if the element at the node is not before it. -/
theorem DownAt.step (h : DownAt lt l k) (hc : 0 < c) (hck : parent c = k) (hk : l[k]? = some a)
    (hb : l[c]? = some b) (hab : ¬ lt a b)
    (hfirst : ∀ i, 0 < i → parent i = k → NotBefore lt l i c) :
    DownAt lt (exchanged l k c a b) c := by
  have hkc : k ≠ c := fun hkc => by
    have := parent_lt hc
    omega
  have hleft := exchanged_left hk hb
  have hright : (exchanged l k c a b)[c]? = some a := exchanged_right hb
  refine ⟨?_,?_⟩
  · intro i hi hpc x y hx hy
    by_cases hpk : parent i = k
    · rw [hpk,hleft] at hy
      cases hy
      by_cases hic : i = c
      · subst hic
        cases hright.symm.trans hx
        exact hab
      · have hik : i ≠ k := fun hik => by
          have := parent_lt hi
          omega
        rw [exchanged_other hik hic] at hx
        exact hfirst i hi hpk x b hx hb
    · have hic : i ≠ c := fun hic => hpk (hic ▸ hck)
      rw [exchanged_other hpk hpc] at hy
      by_cases hik : i = k
      · subst hik
        cases hleft.symm.trans hx
        exact h.grand hi c hc hck b y hb hy
      · rw [exchanged_other hik hic] at hx
        exact h.edges i hi hpk x y hx hy
  · intro _ i hi hpc x y hx hy
    have hlt := parent_lt hi
    have hlt' := parent_lt hc
    rw [hck,hleft] at hy
    cases hy
    rw [exchanged_other (by omega) (by omega)] at hx
    have hedge := h.edges i hi (by omega) x b hx
    rw [hpc] at hedge
    exact hedge hb

/-- An element that is put in the place of another one which is not before it. -/
theorem Ordered.downAt [IsOrderConnected α lt] (h : Ordered lt l)
    (hup : 0 < k → NotBefore lt (l.set k a) k (parent k)) : DownAt lt (l.set k a) k := by
  have hother : ∀ {i : ℕ}, i ≠ k → (l.set k a)[i]? = l[i]? := fun hi => by
    rw [List.getElem?_set,if_neg hi.symm]
  refine ⟨?_,?_⟩
  · intro i hi hpk x y hx hy
    by_cases hik : i = k
    · subst hik
      exact hup hi x y hx hy
    · rw [hother hik] at hx
      rw [hother hpk] at hy
      exact h i hi x y hx hy
  · intro hk i hi hpk x y hx hy
    have hlt := parent_lt hi
    have hlt' := parent_lt hk
    rw [hother (by omega)] at hx hy
    have hki := (List.getElem?_eq_some_iff.mp hx).1
    have hkl : k < l.length := by omega
    have hz : l[k]? = some l[k] := List.getElem?_eq_getElem hkl
    have hchild := h i hi x l[k] hx
    rw [hpk] at hchild
    exact IsOrderConnected.neg_trans (hchild hz) (h k hk _ y hz hy)

end Down

section Up
variable {l : List α} {k : ℕ} {a b : α}

/-- A node that is not before its parent ends the way up. -/
theorem UpAt.ordered (h : UpAt lt l k) (hup : 0 < k → NotBefore lt l k (parent k)) :
    Ordered lt l := by
  intro i hi
  by_cases hik : i = k
  · subst hik
    exact hup hi
  · exact h.edges i hi hik

/-- A node that is before its parent takes its place. -/
theorem UpAt.step [Std.Asymm lt] [IsOrderConnected α lt] (h : UpAt lt l k) (hk : 0 < k) (ha : l[k]? = some a)
    (hb : l[parent k]? = some b) (hab : lt a b) :
    UpAt lt (exchanged l k (parent k) a b) (parent k) := by
  have hp := parent_lt hk
  have hleft := exchanged_left ha hb
  have hright : (exchanged l k (parent k) a b)[parent k]? = some a := exchanged_right hb
  refine ⟨?_,?_⟩
  · intro i hi hip x y hx hy
    have hlt := parent_lt hi
    by_cases hik : i = k
    · subst hik
      cases hleft.symm.trans hx
      cases hright.symm.trans hy
      exact asymm hab
    rw [exchanged_other hik hip] at hx
    by_cases hpk : parent i = k
    · rw [hpk,hleft] at hy
      cases hy
      exact h.grand hk i hi hpk x b hx hb
    · by_cases hpp : parent i = parent k
      · have hedge := h.edges i hi hik x b hx
        rw [hpp] at hedge hy
        cases hright.symm.trans hy
        exact IsOrderConnected.neg_trans (hedge hb) (asymm hab)
      · rw [exchanged_other hpk hpp] at hy
        exact h.edges i hi hik x y hx hy
  · intro hpp i hi hpk x y hx hy
    have hlt := parent_lt hi
    have hlt' := parent_lt hpp
    rw [exchanged_other (by omega) (by omega)] at hy
    have hedge := h.edges (parent k) hpp (by omega) b y hb hy
    by_cases hik : i = k
    · subst hik
      cases hleft.symm.trans hx
      exact hedge
    · rw [exchanged_other hik (by omega)] at hx
      have hchild := h.edges i hi hik x b hx
      rw [hpk] at hchild
      exact IsOrderConnected.neg_trans (hchild hb) hedge

/-- A new last element. -/
theorem Ordered.upAt (h : Ordered lt l) (a : α) : UpAt lt (l ++ [a]) l.length := by
  have hlen : ∀ {i : ℕ} {x : α}, (l ++ [a])[i]? = some x → i < l.length+1 := fun hx => by
    simpa using (List.getElem?_eq_some_iff.mp hx).1
  refine ⟨?_,?_⟩
  · intro i hi hil x y hx hy
    have hlt := parent_lt hi
    have hi' := hlen hx
    rw [List.getElem?_append_left (by omega)] at hx hy
    exact h i hi x y hx hy
  · intro _ i hi hp x y hx
    have hlt := parent_lt hi
    have hi' := hlen hx
    omega

end Up

end Heap
