import WpaCliWrapper.Smartlist.Capacity
import Mathlib.Tactic.Common

/-! Binary search in a smartlist, with the place where a missing element belongs. -/
namespace WpaCliWrapper
namespace Smartlist
variable {α : Type} {κ : Type*} (compare : κ → α → ℤ) (key : κ)

/-- The end of `smartlist_bsearch_idx`. The result of the last comparison is not used. -/
def bsearchEnd (sl : Smartlist α) (lo : ℕ) : Option (ℕ × Bool) := do
  let _ := compare key (← sl.get (if lo < sl.numUsed then lo else sl.numUsed-1))
  return (lo,false)

/-- The loop of `smartlist_bsearch_idx`, for at most some rounds. -/
def bsearchLoop (sl : Smartlist α) : ℕ → ℕ → ℕ → Option (ℕ × Bool)
  | 0, lo, hi => if lo ≤ hi then none else bsearchEnd compare key sl lo
  | rounds+1, lo, hi =>
    if lo ≤ hi then do
      let mid := lo+(hi-lo)/2
      let cmp := compare key (← sl.get mid)
      if cmp = 0 then return (mid,true)
      else if 0 < cmp then bsearchLoop sl rounds (mid+1) hi
      else if 0 < mid then bsearchLoop sl rounds lo (mid-1)
      else return (0,false)
    else bsearchEnd compare key sl lo

/-- The index, and what is stored through `found_out`. -/
def bsearchIdx (sl : Smartlist α) : Option (ℕ × Bool) :=
  if sl.numUsed = 0 then some (0,false)
  else bsearchLoop compare key sl sl.numUsed 0 (sl.numUsed-1)

/-- The member that was found, or `NULL`. -/
def bsearch (sl : Smartlist α) : Option (Option α) := do
  let (idx,found) ← bsearchIdx compare key sl
  if found then return some (← sl.get idx) else return none

/-- The key compares greater than the first members, equal to the next, and less than the rest. -/
def Consistent (xs : List α) : Prop :=
  ∃ less equal greater, xs = less ++ equal ++ greater ∧ (∀ x ∈ less, 0 < compare key x) ∧
    (∀ x ∈ equal, compare key x = 0) ∧ ∀ x ∈ greater, compare key x < 0

/-- All members before an index are less than the key, and all from there on greater. -/
def Separates (xs : List α) (i : ℕ) : Prop :=
  (∀ x ∈ xs.take i, 0 < compare key x) ∧ ∀ x ∈ xs.drop i, compare key x < 0

/-- An index of an equal member if there is one, and else the only index for the key. -/
structure Located (xs : List α) (i : ℕ) (found : Bool) : Prop where
  found_iff : found = true ↔ ∃ x ∈ xs, compare key x = 0
  equal : found = true → ∃ x, xs[i]? = some x ∧ compare key x = 0
  place : found = false → ∀ j ≤ xs.length, Separates compare key xs j ↔ j = i
  within : i ≤ xs.length

/-- The search ends with the place of the key, and finds a member exactly when a scan of the list
does. -/
def Finds (sl : Smartlist α) (xs : List α) : Prop :=
  ∃ i found, bsearchIdx compare key sl = some (i,found) ∧ Located compare key xs i found ∧
    ∃ r, bsearch compare key sl = some r ∧
      r.isSome = (xs.find? fun x => compare key x = 0).isSome ∧
        ∀ x ∈ r, x ∈ xs ∧ compare key x = 0

/-- The search ends at an index where an element of the key's rank can be inserted into a sorted
list. -/
def InsertsSorted (sl : Smartlist α) (xs : List α) : Prop :=
  ∃ i found, bsearchIdx compare key sl = some (i,found) ∧
    ∀ (le : α → α → Prop) (fresh : ℕ → α) (val : α), xs.Pairwise le →
      (∀ x ∈ xs, (0 ≤ compare key x → le x val) ∧ (compare key x ≤ 0 → le val x)) →
        ∃ sl', insert fresh sl i val = some sl' ∧ sl'.Holds (xs.insertIdx i val) ∧
          (xs.insertIdx i val).Pairwise le

section Blocks
variable {compare key} {less equal greater : List α} (hless : ∀ x ∈ less, 0 < compare key x)
  (hequal : ∀ x ∈ equal, compare key x = 0) (hgreater : ∀ x ∈ greater, compare key x < 0)
include hless hequal hgreater

/-- The sign of the comparison tells in which block a member is. -/
theorem block_of_sign {i : ℕ} {x : α} (hx : (less ++ equal ++ greater)[i]? = some x) :
    (0 < compare key x → i < less.length) ∧
    (compare key x = 0 → less.length ≤ i ∧ i < less.length+equal.length) ∧
    (compare key x < 0 → less.length+equal.length ≤ i) := by
  by_cases h₁ : i < less.length
  · rw [List.append_assoc,List.getElem?_append_left h₁] at hx
    have := hless x (List.mem_of_getElem? hx)
    omega
  by_cases h₂ : i < less.length+equal.length
  · rw [List.append_assoc,List.getElem?_append_right (by omega),
      List.getElem?_append_left (by omega)] at hx
    have := hequal x (List.mem_of_getElem? hx)
    omega
  · rw [List.append_assoc,List.getElem?_append_right (by omega),
      List.getElem?_append_right (by omega)] at hx
    have := hgreater x (List.mem_of_getElem? hx)
    omega

/-- Nothing left of `lo` is as great as the key, and nothing right of `hi` is as small. -/
theorem bsearchLoop_spec {sl : Smartlist α} (h : sl.Holds (less ++ equal ++ greater))
    (hne : 0 < (less ++ equal ++ greater).length) {rounds lo hi : ℕ} (hrounds : hi+1 ≤ lo+rounds)
    (hlo : lo ≤ less.length) (hhi : less.length+equal.length ≤ hi+1)
    (hlen : hi < (less ++ equal ++ greater).length) :
    ∃ i found, bsearchLoop compare key sl rounds lo hi = some (i,found) ∧ less.length ≤ i ∧
      (if found then i < less.length+equal.length else equal = [] ∧ i = less.length) := by
  have hget : ∀ {i : ℕ}, i < (less ++ equal ++ greater).length →
      ∃ x, sl.get i = some x ∧ (less ++ equal ++ greater)[i]? = some x := fun hi =>
    ⟨_,(h.get_eq hi).trans (List.getElem?_eq_getElem hi),List.getElem?_eq_getElem hi⟩
  -- the interval is empty
  have hend : ∀ {lo : ℕ}, lo ≤ less.length → less.length+equal.length ≤ lo →
      ∃ i found, bsearchEnd compare key sl lo = some (i,found) ∧ less.length ≤ i ∧
        (if found then i < less.length+equal.length else equal = [] ∧ i = less.length) := by
    intro lo hlo hhi
    obtain ⟨x,hx,-⟩ := hget (i := if lo < sl.numUsed then lo else sl.numUsed-1) (by
      rw [h.used]
      split
      · assumption
      · omega)
    refine ⟨lo,false,by simp [bsearchEnd,hx],by omega,?_,by omega⟩
    exact List.eq_nil_of_length_eq_zero (by omega)
  induction rounds generalizing lo hi with
  | zero =>
    rw [bsearchLoop,if_neg (by omega)]
    exact hend hlo (by omega)
  | succ rounds ih =>
    rw [bsearchLoop]
    by_cases hle : lo ≤ hi
    swap
    · rw [if_neg hle]
      exact hend hlo (by omega)
    obtain ⟨x,hx,hmem⟩ := hget (i := lo+(hi-lo)/2) (by omega)
    obtain ⟨hpos,hzero,hneg⟩ := block_of_sign hless hequal hgreater hmem
    simp only [if_pos hle,hx,Option.bind_eq_bind,Option.bind_some]
    by_cases h0 : compare key x = 0
    · rw [if_pos h0]
      exact ⟨_,true,rfl,(hzero h0).1,by simpa using (hzero h0).2⟩
    rw [if_neg h0]
    by_cases h1 : 0 < compare key x
    · rw [if_pos h1]
      have := hpos h1
      exact ih (by omega) (by omega) hhi hlen
    have := hneg (by omega)
    rw [if_neg h1]
    by_cases hmid : 0 < lo+(hi-lo)/2
    · rw [if_pos hmid]
      exact ih (by omega) hlo (by omega) (by omega)
    · rw [if_neg hmid]
      refine ⟨0,false,rfl,by omega,?_⟩
      rw [if_neg Bool.false_ne_true]
      exact ⟨List.eq_nil_of_length_eq_zero (by omega),by omega⟩

/-- No member before the end of the equal ones is greater than the key, and none after their
beginning is less. -/
theorem weakly_separated {i : ℕ} (hi : less.length ≤ i) (hi' : i ≤ less.length+equal.length) :
    (∀ x ∈ (less ++ equal ++ greater).take i, 0 ≤ compare key x) ∧
      ∀ x ∈ (less ++ equal ++ greater).drop i, compare key x ≤ 0 := by
  constructor
  · intro x hx
    obtain ⟨j,hj⟩ := List.mem_iff_getElem?.mp hx
    have hlt := (List.getElem?_eq_some_iff.mp hj).1
    rw [List.length_take] at hlt
    rw [List.getElem?_take_of_lt (by omega)] at hj
    have := (block_of_sign hless hequal hgreater hj).2.2
    omega
  · intro x hx
    obtain ⟨j,hj⟩ := List.mem_iff_getElem?.mp hx
    rw [List.getElem?_drop] at hj
    have := (block_of_sign hless hequal hgreater hj).1
    omega

end Blocks

variable {compare key} {sl : Smartlist α} {xs : List α}

theorem Separates.unique {i j : ℕ} (hi : Separates compare key xs i) (hj : Separates compare key xs j)
    (hle : j ≤ xs.length) : ¬ i < j := by
  intro hij
  have hlt : i < xs.length := by omega
  have h₁ := hj.1 xs[i] (List.mem_take_iff_getElem.mpr ⟨i,by omega,rfl⟩)
  have h₂ := hi.2 xs[i] (List.mem_drop_iff_getElem.mpr ⟨0,by omega,by simp⟩)
  omega

/-- The search finds the place of a key that is consistent with the order of the list. -/
theorem bsearchIdx_located (h : sl.Holds xs) (hcons : Consistent compare key xs) :
    ∃ i found, bsearchIdx compare key sl = some (i,found) ∧ Located compare key xs i found ∧
      (∀ x ∈ xs.take i, 0 ≤ compare key x) ∧ ∀ x ∈ xs.drop i, compare key x ≤ 0 := by
  obtain ⟨less,equal,greater,rfl,hless,hequal,hgreater⟩ := hcons
  obtain ⟨i,found,hrun,hi,hfound⟩ : ∃ i found, bsearchIdx compare key sl = some (i,found) ∧
      less.length ≤ i ∧
        (if found then i < less.length+equal.length else equal = [] ∧ i = less.length) := by
    rw [bsearchIdx]
    by_cases h0 : (less ++ equal ++ greater).length = 0
    · have hnil := List.eq_nil_of_length_eq_zero h0
      rw [List.append_eq_nil_iff,List.append_eq_nil_iff] at hnil
      obtain ⟨⟨rfl,rfl⟩,-⟩ := hnil
      exact ⟨0,false,if_pos (h.used.trans h0),le_refl _,by simp⟩
    · rw [if_neg (h.used ▸ h0)]
      have hused := h.used
      exact bsearchLoop_spec hless hequal hgreater h (Nat.pos_of_ne_zero h0) (by omega)
        (Nat.zero_le _) (by simp at h0 hused ⊢; omega) (by omega)
  refine ⟨i,found,hrun,?_⟩
  cases found with
  | true =>
    have hlt : i < less.length+equal.length := hfound
    refine ⟨?_,weakly_separated hless hequal hgreater hi hlt.le⟩
    have hin : i-less.length < equal.length := by omega
    have hmem : (less ++ equal ++ greater)[i]? = some equal[i-less.length] := by
      rw [List.append_assoc,List.getElem?_append_right hi,List.getElem?_append_left (by omega)]
      exact List.getElem?_eq_getElem _
    have hzero := hequal equal[i-less.length] (List.getElem_mem hin)
    refine ⟨⟨fun _ => ⟨_,List.mem_of_getElem? hmem,hzero⟩,fun _ => rfl⟩,fun _ => ⟨_,hmem,hzero⟩,
      fun hfalse => (by cases hfalse),by simp; omega⟩
  | false =>
    obtain ⟨rfl,rfl⟩ : equal = [] ∧ i = less.length := hfound
    refine ⟨?_,weakly_separated hless hequal hgreater hi (Nat.le_add_right _ _)⟩
    have hsep : Separates compare key (less ++ [] ++ greater) less.length := by
      rw [List.append_nil,Separates,List.take_left,List.drop_left]
      exact ⟨hless,hgreater⟩
    refine ⟨⟨fun hfalse => (by cases hfalse),?_⟩,fun hfalse => (by cases hfalse),
      fun _ j hj => ⟨fun hsep' => ?_,fun hj => hj ▸ hsep⟩,by simp⟩
    · rintro ⟨x,hx,hzero⟩
      rw [List.append_nil] at hx
      rcases List.mem_append.mp hx with hx | hx
      · have := hless x hx
        omega
      · have := hgreater x hx
        omega
    · have h₁ := hsep.unique hsep' hj
      have h₂ := hsep'.unique hsep (by simp)
      omega

/-- An element goes where none before is after it and none behind is before it. -/
theorem pairwise_insertIdx {le : α → α → Prop} {val : α} {i : ℕ} (hi : i ≤ xs.length)
    (hxs : xs.Pairwise le) (hbefore : ∀ x ∈ xs.take i, le x val)
    (hafter : ∀ x ∈ xs.drop i, le val x) : (xs.insertIdx i val).Pairwise le := by
  have hmiddle := insertIdx_middle (xs.take i) val (xs.drop i)
  rw [List.take_append_drop,List.length_take_of_le hi] at hmiddle
  rw [hmiddle]
  rw [← List.take_append_drop i xs] at hxs
  obtain ⟨htake,hdrop,hcross⟩ := List.pairwise_append.mp hxs
  refine List.pairwise_append.mpr ⟨htake,List.pairwise_cons.mpr ⟨hafter,hdrop⟩,?_⟩
  intro x hx y hy
  rcases List.mem_cons.mp hy with rfl | hy
  · exact hbefore x hx
  · exact hcross x hx y hy

theorem bsearch_of_located (h : sl.Holds xs) {i : ℕ} {found : Bool}
    (hrun : bsearchIdx compare key sl = some (i,found)) (hloc : Located compare key xs i found) :
    ∃ r, bsearch compare key sl = some r ∧
      r.isSome = (xs.find? fun x => compare key x = 0).isSome ∧
        ∀ x ∈ r, x ∈ xs ∧ compare key x = 0 := by
  cases found with
  | true =>
    obtain ⟨x,hx,hzero⟩ := hloc.equal rfl
    have hget : sl.get i = some x := (h.get_eq (List.getElem?_eq_some_iff.mp hx).1).trans hx
    have hmem := List.mem_of_getElem? hx
    refine ⟨some x,by simp [bsearch,hrun,hget],?_,?_⟩
    · rw [eq_comm,Option.isSome_some,List.find?_isSome]
      exact ⟨x,hmem,decide_eq_true hzero⟩
    · rintro y ⟨⟩
      exact ⟨hmem,hzero⟩
  | false =>
    refine ⟨none,by simp [bsearch,hrun],?_,by simp⟩
    rw [eq_comm,Option.isSome_none,Option.isSome_eq_false_iff,Option.isNone_iff_eq_none,
      List.find?_eq_none]
    intro x hmem hzero
    exact Bool.false_ne_true (hloc.found_iff.mpr ⟨x,hmem,of_decide_eq_true hzero⟩)

theorem not_insertsSorted (h : sl.Holds xs) (ha : sl.Allocated) (hlen : 2^30 ≤ xs.length) :
    ¬ InsertsSorted compare key sl xs := by
  rintro ⟨i,found,-,hinserts⟩
  obtain ⟨x,-⟩ := List.exists_mem_of_length_pos (Nat.lt_of_lt_of_le (by decide) hlen)
  obtain ⟨sl',hinsert,-⟩ := hinserts (fun _ _ => True) (fun _ => x) x
    (List.pairwise_of_forall fun _ _ => trivial) fun _ _ => ⟨fun _ => trivial,fun _ => trivial⟩
  have hroom := ha.insert hinsert
  rw [h.used] at hroom
  omega

/-- The search always ends with the place of the key. An element can be inserted there if and only
if the last power of two is not full. -/
theorem bsearch_finds_iff (h : sl.Holds xs) (ha : sl.Allocated)
    (hcons : Consistent compare key xs) :
    Finds compare key sl xs ∧ (InsertsSorted compare key sl xs ↔ xs.length < 2^30) := by
  obtain ⟨i,found,hrun,hloc,hbefore,hafter⟩ := bsearchIdx_located h hcons
  refine ⟨⟨i,found,hrun,hloc,bsearch_of_located h hrun hloc⟩,?_,fun hlen => ?_⟩
  · intro hinserts
    by_contra hfull
    exact not_insertsSorted h ha (Nat.le_of_not_lt hfull) hinserts
  refine ⟨i,found,hrun,fun le fresh val hsorted hle => ?_⟩
  obtain ⟨sl',hinsert,hold,-⟩ := h.insert fresh hloc.within hlen val
  refine ⟨sl',hinsert,hold,pairwise_insertIdx hloc.within hsorted ?_ ?_⟩
  · exact fun x hx => (hle x (List.mem_of_mem_take hx)).1 (hbefore x hx)
  · exact fun x hx => (hle x (List.mem_of_mem_drop hx)).2 (hafter x hx)

/-- The first odd numbers. -/
def oddNumbers : Smartlist ℕ := ⟨[1,3,5] ++ List.replicate 13 0,3,16⟩

theorem bsearch_finds_numbers : Finds difference 4 oddNumbers [1,3,5] ∧
    (InsertsSorted difference 4 oddNumbers [1,3,5] ↔ [1,3,5].length < 2^30) :=
  bsearch_finds_iff ⟨⟨List.replicate 13 0,rfl⟩,rfl,rfl,Nat.succ_pos 15⟩ ⟨⟨0,rfl⟩,by decide⟩
    ⟨[1,3],[],[5],rfl,by decide,by decide,by decide⟩

/-- A greater number than all others has its place behind them, but the capacity overflows. -/
theorem bsearch_overfull : Ints.lastFull.Holds (List.replicate 1073741824 0) ∧ Ints.lastFull.Allocated ∧
    Consistent difference 7 (List.replicate 1073741824 0) ∧
    ¬ InsertsSorted difference 7 Ints.lastFull (List.replicate 1073741824 0) := by
  have hlen : (List.replicate 1073741824 0).length = 1073741824 := List.length_replicate
  have hold : Ints.lastFull.Holds (List.replicate 1073741824 0) := holds_replicate (by omega) 0
  have ha : Ints.lastFull.Allocated := ⟨⟨26,rfl⟩,show 1073741824 ≤ 2147483647 by decide⟩
  have hless : ∀ x ∈ List.replicate 1073741824 0, 0 < difference 7 x := fun x hx => by
    rw [List.eq_of_mem_replicate hx]
    decide
  refine ⟨hold,ha,⟨_,[],[],?_,hless,?_,?_⟩,not_insertsSorted hold ha (by omega)⟩
  · rw [List.append_nil,List.append_nil]
  · exact fun x hx => by cases hx
  · exact fun x hx => by cases hx

end Smartlist

end WpaCliWrapper
