import WpaCliWrapper.Smartlist.Capacity
import WpaCliWrapper.Heap.Order
import Mathlib.Logic.Function.Basic

/-! Smartlists as priority queues. Every item has an index field, which holds its position. -/
namespace WpaCliWrapper
open Heap

/-- A smartlist of items and the index field of each of them. -/
structure PQueue (α : Type) where
  sl : Smartlist α
  idx : α → ℤ

namespace PQueue
variable {α : Type} (compare : α → α → ℤ) (fresh : ℕ → α)

/-- `compare` is a total preorder: less, equal or greater by the sign of the result. -/
structure Comparison (compare : α → α → ℤ) : Prop where
  opposite : ∀ a b, compare a b < 0 ↔ 0 < compare b a
  trans : ∀ a b c, compare a b ≤ 0 → compare b c ≤ 0 → compare a c ≤ 0

/-- An item compares less than another one. -/
def Before (a b : α) : Prop := compare a b < 0

instance : DecidableRel (Before compare) := fun a b => inferInstanceAs (Decidable (compare a b < 0))

section Order
variable {compare}

theorem not_before_iff (hc : Comparison compare) {a b : α} :
    ¬ Before compare a b ↔ compare b a ≤ 0 := by
  rw [Before,hc.opposite]
  exact Int.not_lt

theorem Comparison.asymm (hc : Comparison compare) : Std.Asymm (Before compare) :=
  ⟨fun _ _ hab => (not_before_iff hc).mpr (le_of_lt hab)⟩

theorem Comparison.connected (hc : Comparison compare) : IsOrderConnected α (Before compare) := by
  refine ⟨fun a b c hac => ?_⟩
  by_contra hnot
  obtain ⟨hab,hbc⟩ := not_or.mp hnot
  rw [not_before_iff hc] at hab hbc
  exact (not_before_iff hc).mpr (hc.trans c b a hbc hab) hac

variable (hc : Comparison compare) {a b c : α}
include hc

theorem Comparison.refl (a : α) : compare a a = 0 := by
  have := hc.opposite a a
  omega

/-- Items that are equal are so in both orders. -/
theorem Comparison.equal_comm : compare a b = 0 ↔ compare b a = 0 := by
  have hab := hc.opposite a b
  have hba := hc.opposite b a
  omega

theorem Comparison.le_of_not_lt (h : ¬ compare a b < 0) : compare b a ≤ 0 := by
  rw [hc.opposite] at h
  omega

theorem Comparison.lt_of_lt_of_le (hab : compare a b < 0) (hbc : compare b c ≤ 0) :
    compare a c < 0 := by
  by_contra hac
  have hba := hc.trans b c a hbc (hc.le_of_not_lt hac)
  rw [hc.opposite] at hab
  omega

theorem Comparison.lt_of_le_of_lt (hab : compare a b ≤ 0) (hbc : compare b c < 0) :
    compare a c < 0 := by
  by_contra hac
  have hcb := hc.trans c a b (hc.le_of_not_lt hac) hab
  rw [hc.opposite] at hbc
  omega

end Order

theorem difference_comparison : Comparison difference := by
  constructor
  · intro a b
    unfold difference
    omega
  · intro a b c hab hbc
    unfold difference at *
    omega

variable [DecidableEq α]

section Operations

def leftChild (i : ℕ) : ℕ := 2*i+1

/-- `UPDATE_IDX`. -/
def updateIdx (q : PQueue α) (i : ℕ) : Option (PQueue α) := do
  let updated ← q.sl.get i
  return { q with idx := Function.update q.idx updated i }

/-- Two items are exchanged, and their index fields follow. -/
def exchange (q : PQueue α) (i j : ℕ) : Option (PQueue α) := do
  let sl ← q.sl.exchange i j
  updateIdx (← updateIdx { q with sl } i) j

/-- The choice between an item and its children in `smartlist_heapify`. An item that is as good as
its left child is not preferred to it. -/
def bestIdx (q : PQueue α) (idx : ℕ) : Option ℕ := do
  let best := if compare (← q.sl.get idx) (← q.sl.get (leftChild idx)) < 0 then idx
    else leftChild idx
  if leftChild idx+1 < q.sl.numUsed then
    if compare (← q.sl.get (leftChild idx+1)) (← q.sl.get best) < 0 then
      return leftChild idx+1
  return best

/-- The loop of `smartlist_heapify`, for at most some rounds. -/
def heapifyLoop : ℕ → PQueue α → ℕ → Option (PQueue α)
  | 0, q, idx => if q.sl.numUsed ≤ leftChild idx then some q else none
  | rounds+1, q, idx =>
    if q.sl.numUsed ≤ leftChild idx then some q else do
      let best ← bestIdx compare q idx
      if best = idx then some q else heapifyLoop rounds (← q.exchange idx best) best

def heapify (q : PQueue α) (idx : ℕ) : Option (PQueue α) :=
  heapifyLoop compare q.sl.numUsed q idx

/-- The loop of `smartlist_pqueue_add`, for at most some rounds. -/
def addLoop : ℕ → PQueue α → ℕ → Option (PQueue α)
  | 0, q, idx => if idx = 0 then some q else none
  | rounds+1, q, idx =>
    if idx = 0 then some q else do
      if compare (← q.sl.get idx) (← q.sl.get (parent idx)) < 0 then
        addLoop rounds (← q.exchange (parent idx) idx) (parent idx)
      else some q

def add (q : PQueue α) (item : α) : Option (PQueue α) := do
  let sl ← q.sl.add fresh item
  let q ← updateIdx { q with sl } (sl.numUsed-1)
  addLoop compare sl.numUsed q (sl.numUsed-1)

/-- The last item is put in the place of another one and goes down from there. -/
def fill (q : PQueue α) (idx : ℕ) : Option (PQueue α) := do
  let sl ← q.sl.set idx (← q.sl.get q.sl.numUsed)
  heapify compare (← updateIdx { q with sl } idx) idx

def pop (q : PQueue α) : Option (PQueue α × α) := do
  let top ← q.sl.get 0
  let idx := Function.update q.idx top (-1)
  match q.sl.numUsed with
  | 0 => none
  | 1 => return ({ sl := { q.sl with numUsed := 0 }, idx },top)
  | n+1 => return (← fill compare { sl := { q.sl with numUsed := n }, idx } 0,top)

def remove (q : PQueue α) (item : α) : Option (PQueue α) :=
  match q.idx item, q.sl.numUsed with
  | .ofNat i, n+1 =>
    let q : PQueue α := ⟨{ q.sl with numUsed := n },Function.update q.idx item (-1)⟩
    if i = n then some q else fill compare q i
  | _, _ => none

end Operations

section Frame
variable {q q' : PQueue α}

theorem updateIdx_sl {i : ℕ} (h : updateIdx q i = some q') : q'.sl = q.sl := by
  obtain ⟨_,-,h⟩ := Option.bind_eq_some_iff.mp h
  cases h
  rfl

/-- Only `smartlist_add` changes the capacity. -/
theorem exchange_capacity {i j : ℕ} (h : q.exchange i j = some q') :
    q'.sl.capacity = q.sl.capacity := by
  obtain ⟨sl,hsl,h⟩ := Option.bind_eq_some_iff.mp h
  obtain ⟨q₁,h₁,h₂⟩ := Option.bind_eq_some_iff.mp h
  obtain ⟨tmp,-,hsl⟩ := Option.bind_eq_some_iff.mp hsl
  obtain ⟨b,-,hsl⟩ := Option.bind_eq_some_iff.mp hsl
  obtain ⟨sl₁,hset,hset'⟩ := Option.bind_eq_some_iff.mp hsl
  rw [updateIdx_sl h₂,updateIdx_sl h₁]
  exact (Smartlist.set_capacity hset').trans (Smartlist.set_capacity hset)

variable {compare}

theorem heapifyLoop_capacity {rounds idx : ℕ} (h : heapifyLoop compare rounds q idx = some q') :
    q'.sl.capacity = q.sl.capacity := by
  induction rounds generalizing q idx with
  | zero =>
    rw [heapifyLoop] at h
    split at h <;> cases h
    rfl
  | succ rounds ih =>
    rw [heapifyLoop] at h
    split at h
    · cases h
      rfl
    obtain ⟨best,-,h⟩ := Option.bind_eq_some_iff.mp h
    split at h
    · cases h
      rfl
    obtain ⟨q₁,hex,h⟩ := Option.bind_eq_some_iff.mp h
    rw [ih h,exchange_capacity hex]

theorem addLoop_capacity {rounds idx : ℕ} (h : addLoop compare rounds q idx = some q') :
    q'.sl.capacity = q.sl.capacity := by
  induction rounds generalizing q idx with
  | zero =>
    rw [addLoop] at h
    split at h <;> cases h
    rfl
  | succ rounds ih =>
    rw [addLoop] at h
    split at h
    · cases h
      rfl
    obtain ⟨a,-,h⟩ := Option.bind_eq_some_iff.mp h
    obtain ⟨b,-,h⟩ := Option.bind_eq_some_iff.mp h
    split at h
    · obtain ⟨q₁,hex,h⟩ := Option.bind_eq_some_iff.mp h
      rw [ih h,exchange_capacity hex]
    · cases h
      rfl

theorem fill_capacity {idx : ℕ} (h : fill compare q idx = some q') :
    q'.sl.capacity = q.sl.capacity := by
  obtain ⟨last,-,h⟩ := Option.bind_eq_some_iff.mp h
  obtain ⟨sl,hset,h⟩ := Option.bind_eq_some_iff.mp h
  obtain ⟨q₁,h₁,h⟩ := Option.bind_eq_some_iff.mp h
  rw [heapifyLoop_capacity h,updateIdx_sl h₁]
  exact Smartlist.set_capacity hset

theorem pop_capacity {top : α} (h : pop compare q = some (q',top)) :
    q'.sl.capacity = q.sl.capacity := by
  obtain ⟨a,-,h⟩ := Option.bind_eq_some_iff.mp h
  split at h
  · cases h
  · cases h
    rfl
  · obtain ⟨q₁,hfill,h⟩ := Option.bind_eq_some_iff.mp h
    cases h
    rw [fill_capacity hfill]

theorem remove_capacity {item : α} (h : remove compare q item = some q') :
    q'.sl.capacity = q.sl.capacity := by
  rw [remove] at h
  split at h
  · split at h
    · cases h
      rfl
    · rw [fill_capacity h]
  · cases h

/-- An item is added to a queue that the last power of two has room for. -/
theorem add_allocated {fresh : ℕ → α} {item : α} (ha : q.sl.Allocated)
    (h : add compare fresh q item = some q') : q'.sl.Allocated ∧ q.sl.numUsed < 2^30 := by
  obtain ⟨sl,hadd,h⟩ := Option.bind_eq_some_iff.mp h
  obtain ⟨q₁,h₁,h⟩ := Option.bind_eq_some_iff.mp h
  obtain ⟨ha',hlt⟩ := ha.add hadd
  refine ⟨ha'.of_capacity_eq ?_,hlt⟩
  rw [addLoop_capacity h,updateIdx_sl h₁]

end Frame

section Cells
variable {q : PQueue α} {xs : List α} (h : q.sl.Holds xs)
include h

theorem updateIdx_holds {i : ℕ} (hi : i < xs.length) :
    ∃ q', updateIdx q i = some q' ∧ q'.sl = q.sl := by
  refine ⟨⟨q.sl,Function.update q.idx xs[i] i⟩,?_,rfl⟩
  simp [updateIdx,h.get_eq hi,hi]

theorem exchange_holds {i j : ℕ} {a b : α} (hi : xs[i]? = some a) (hj : xs[j]? = some b) :
    ∃ q', q.exchange i j = some q' ∧ q'.sl.Holds (exchanged xs i j a b) := by
  obtain ⟨sl,he,hold,-⟩ := h.exchange hi hj
  have hi' := (List.getElem?_eq_some_iff.mp hi).1
  have hj' := (List.getElem?_eq_some_iff.mp hj).1
  obtain ⟨q₁,h₁,hsl₁⟩ := updateIdx_holds (q := ⟨sl,q.idx⟩) hold (i := i) (by simpa using hi')
  obtain ⟨q₂,h₂,hsl₂⟩ := updateIdx_holds (q := q₁) (by rw [hsl₁]; exact hold)
    (i := j) (by simpa using hj')
  refine ⟨q₂,?_,by rw [hsl₂,hsl₁]; exact hold⟩
  simp [PQueue.exchange,he,h₁,h₂]

end Cells

section Heapify
variable {compare} (hc : Comparison compare) {q : PQueue α} {xs : List α} (h : q.sl.Holds xs)
include hc h

omit [DecidableEq α] in
/-- An item is preferred to its children if none of them is before it. Otherwise it is not before
the child that is chosen, and this is the first one. -/
theorem bestIdx_cases {k : ℕ} (hk : leftChild k < xs.length) :
    ∃ best, bestIdx compare q k = some best ∧
      (best = k ∧ (∀ i, 0 < i → parent i = k → NotBefore (Before compare) xs i k) ∨
        (0 < best ∧ parent best = k ∧ best < xs.length ∧ k < best) ∧
          NotBefore (Before compare) xs k best ∧
          ∀ i, 0 < i → parent i = k → NotBefore (Before compare) xs i best) := by
  have := hc.asymm
  have := hc.connected
  have hirrefl : ∀ i, NotBefore (Before compare) xs i i := fun i a b ha hb => by
    cases ha.symm.trans hb
    exact irrefl a
  have hkl : k < xs.length := by
    unfold leftChild at hk
    omega
  have hget : ∀ {i : ℕ} {x : α}, xs[i]? = some x → q.sl.get i = some x := fun hx => by
    rw [h.get_eq (List.getElem?_eq_some_iff.mp hx).1,hx]
  obtain ⟨a,ha⟩ : ∃ a, xs[k]? = some a := ⟨_,List.getElem?_eq_getElem hkl⟩
  obtain ⟨l,hl⟩ : ∃ l, xs[leftChild k]? = some l := ⟨_,List.getElem?_eq_getElem hk⟩
  have hleft : 0 < leftChild k ∧ parent (leftChild k) = k ∧ leftChild k < xs.length ∧
      k < leftChild k := by
    unfold leftChild parent at *
    omega
  have hnot : ∀ {i j : ℕ} {x y : α}, xs[i]? = some x → xs[j]? = some y → ¬ Before compare x y →
      NotBefore (Before compare) xs i j := fun hx hy hxy x' y' hx' hy' => by
    cases hx.symm.trans hx'
    cases hy.symm.trans hy'
    exact hxy
  by_cases hr : leftChild k+1 < xs.length
  · obtain ⟨r,hright⟩ : ∃ r, xs[leftChild k+1]? = some r := ⟨_,List.getElem?_eq_getElem hr⟩
    have hr' : 0 < leftChild k+1 ∧ parent (leftChild k+1) = k ∧ leftChild k+1 < xs.length ∧
        k < leftChild k+1 := by
      unfold leftChild parent at *
      omega
    by_cases hal : compare a l < 0
    · by_cases hra : compare r a < 0
      · refine ⟨leftChild k+1,?_,.inr ⟨hr',hnot ha hright (asymm hra),forall_children
          (hnot hl hright (IsOrderConnected.neg_trans (asymm hal) (asymm hra))) (hirrefl _)⟩⟩
        simp [bestIdx,hget ha,hget hl,hget hright,h.used,hr,hal,hra]
      · refine ⟨k,?_,.inl ⟨rfl,forall_children (hnot hl ha (asymm hal)) (hnot hright ha hra)⟩⟩
        simp [bestIdx,hget ha,hget hl,hget hright,h.used,hr,hal,hra]
    · by_cases hrl : compare r l < 0
      · refine ⟨leftChild k+1,?_,.inr ⟨hr',
          hnot ha hright (IsOrderConnected.neg_trans hal (asymm hrl)),
          forall_children (hnot hl hright (asymm hrl)) (hirrefl _)⟩⟩
        simp [bestIdx,hget ha,hget hl,hget hright,h.used,hr,hal,hrl]
      · refine ⟨leftChild k,?_,.inr ⟨hleft,hnot ha hl hal,
          forall_children (hirrefl _) (hnot hright hl hrl)⟩⟩
        simp [bestIdx,hget ha,hget hl,hget hright,h.used,hr,hal,hrl]
  · have hnone : ∀ j, NotBefore (Before compare) xs (2*k+2) j := fun j x y hx => by
      rw [List.getElem?_eq_none (by unfold leftChild at hr; omega)] at hx
      cases hx
    by_cases hal : compare a l < 0
    · refine ⟨k,?_,.inl ⟨rfl,forall_children (hnot hl ha (asymm hal)) (hnone k)⟩⟩
      simp [bestIdx,hget ha,hget hl,h.used,hr,hal]
    · refine ⟨leftChild k,?_,.inr ⟨hleft,hnot ha hl hal,forall_children (hirrefl _) (hnone _)⟩⟩
      simp [bestIdx,hget ha,hget hl,h.used,hr,hal]

omit h in
theorem heapifyLoop_holds {q : PQueue α} {xs : List α} (h : q.sl.Holds xs) {rounds k : ℕ}
    (hrounds : xs.length ≤ k+rounds) (hdown : DownAt (Before compare) xs k) :
    ∃ q' ys, heapifyLoop compare rounds q k = some q' ∧ q'.sl.Holds ys ∧ ys.Perm xs ∧
      Ordered (Before compare) ys := by
  -- a leaf ends the way down
  have hleaf : ∀ {k : ℕ} {xs : List α}, DownAt (Before compare) xs k →
      xs.length ≤ leftChild k → Ordered (Before compare) xs := by
    intro k xs hdown hle
    refine hdown.ordered fun i hi hp a b ha => ?_
    have hlt := (List.getElem?_eq_some_iff.mp ha).1
    rw [leftChild] at hle
    have := (parent_eq_iff hi).mp hp
    omega
  induction rounds generalizing q xs k with
  | zero =>
    have hle : xs.length ≤ leftChild k := by
      rw [leftChild]
      omega
    exact ⟨q,xs,if_pos (h.used ▸ hle),h,.refl _,hleaf hdown hle⟩
  | succ rounds ih =>
    rw [heapifyLoop]
    by_cases hle : xs.length ≤ leftChild k
    · exact ⟨q,xs,if_pos (h.used ▸ hle),h,.refl _,hleaf hdown hle⟩
    rw [if_neg (h.used ▸ hle)]
    obtain ⟨best,hbest,hcases⟩ := bestIdx_cases hc h (k := k) (by omega)
    rcases hcases with ⟨rfl,hfirst⟩ | ⟨⟨hpos,hp,hlt,hgt⟩,hnot,hfirst⟩
    · exact ⟨q,xs,by simp [hbest],h,.refl _,hdown.ordered hfirst⟩
    · have ha := List.getElem?_eq_getElem (hgt.trans hlt)
      have hb := List.getElem?_eq_getElem hlt
      obtain ⟨q₁,hex,h₁⟩ := exchange_holds h ha hb
      have hdown₁ := hdown.step hpos hp ha hb (hnot _ _ ha hb) hfirst
      obtain ⟨q',ys,hrun,hold,hperm,hord⟩ := ih h₁ (by rw [exchanged_length]; omega) hdown₁
      refine ⟨q',ys,?_,hold,hperm.trans (exchanged_perm ha hb),hord⟩
      simp [hbest,hgt.ne',hex,hrun]

theorem heapify_holds {k : ℕ} (hdown : DownAt (Before compare) xs k) :
    ∃ q' ys, heapify compare q k = some q' ∧ q'.sl.Holds ys ∧ ys.Perm xs ∧
      Ordered (Before compare) ys :=
  heapifyLoop_holds hc h (by rw [h.used]; omega) hdown

end Heapify

section Spec
variable {compare} (hc : Comparison compare) {q : PQueue α} {xs : List α}
include hc

theorem addLoop_holds {rounds k : ℕ} (h : q.sl.Holds xs) (hk : k < xs.length)
    (hrounds : k ≤ rounds) (hup : UpAt (Before compare) xs k) :
    ∃ q' ys, addLoop compare rounds q k = some q' ∧ q'.sl.Holds ys ∧ ys.Perm xs ∧
      Ordered (Before compare) ys := by
  have := hc.asymm
  have := hc.connected
  induction rounds generalizing q xs k with
  | zero =>
    obtain rfl : k = 0 := by omega
    exact ⟨q,xs,if_pos rfl,h,.refl _,hup.ordered fun hlt => absurd hlt (lt_irrefl 0)⟩
  | succ rounds ih =>
    rw [addLoop]
    by_cases h0 : k = 0
    · subst h0
      exact ⟨q,xs,if_pos rfl,h,.refl _,hup.ordered fun hlt => absurd hlt (lt_irrefl 0)⟩
    have hp := parent_lt (Nat.pos_of_ne_zero h0)
    have ha := List.getElem?_eq_getElem hk
    have hb := List.getElem?_eq_getElem (hp.trans hk)
    rw [if_neg h0,h.get_eq hk,h.get_eq (hp.trans hk),ha,hb]
    by_cases hlt : compare xs[k] xs[parent k] < 0
    · obtain ⟨q₁,hex,h₁⟩ := exchange_holds h hb ha
      have hup₁ := hup.step (Nat.pos_of_ne_zero h0) ha hb hlt
      rw [exchanged_comm hp.ne'] at hup₁
      obtain ⟨q',ys,hrun,hold,hperm,hord⟩ := ih h₁ (by rw [exchanged_length]; omega) (by omega) hup₁
      exact ⟨q',ys,by simp [hlt,hex,hrun],hold,hperm.trans (exchanged_perm hb ha),hord⟩
    · refine ⟨q,xs,by simp [hlt],h,.refl _,hup.ordered fun _ x y hx hy => ?_⟩
      cases ha.symm.trans hx
      cases hb.symm.trans hy
      exact hlt

theorem add_holds (h : q.sl.Holds xs) (hord : Ordered (Before compare) xs)
    (hlen : xs.length < 2^30) (fresh : ℕ → α) (item : α) : ∃ q' ys,
      add compare fresh q item = some q' ∧ q'.sl.Holds ys ∧ ys.Perm (item :: xs) ∧
        Ordered (Before compare) ys := by
  obtain ⟨sl,hadd,hold,-⟩ := h.add fresh hlen item
  have hused : sl.numUsed-1 = xs.length := by simp [hold.used]
  have hlt : xs.length < (xs ++ [item]).length := by simp
  obtain ⟨q₁,hidx,hsl⟩ := updateIdx_holds (q := ⟨sl,q.idx⟩) hold hlt
  obtain ⟨q',ys,hrun,hold',hperm,hord'⟩ := addLoop_holds hc (q := q₁) (by rw [hsl]; exact hold)
    hlt (show xs.length ≤ sl.numUsed by omega) (hord.upAt item)
  refine ⟨q',ys,?_,hold',hperm.trans (List.perm_append_singleton item xs),hord'⟩
  simp [add,hadd,hused,hidx,hrun]

/-- The last item takes another one's place and goes down from there. -/
theorem fill_holds {sl : Smartlist α} (h : sl.Holds xs) (idx : α → ℤ) {n k : ℕ} {last : α}
    (hn : xs.length = n+1) (hk : k < n) (hlast : xs[n]? = some last)
    (hdown : DownAt (Before compare) ((xs.take n).set k last) k) :
    ∃ q' ys, fill compare ⟨{ sl with numUsed := n },idx⟩ k = some q' ∧ q'.sl.Holds ys ∧
      ys.Perm ((xs.take n).set k last) ∧ Ordered (Before compare) ys := by
  obtain ⟨sl₁,hset,h₁,-⟩ := h.set_take (i := k) (n := n) (by omega) (by omega) last
  rw [List.take_set] at h₁
  have hget : sl.get n = some last := by rw [h.get_eq (by omega),hlast]
  obtain ⟨q₁,hidx,hsl⟩ := updateIdx_holds (q := ⟨sl₁,idx⟩) h₁ (i := k) (by simp; omega)
  obtain ⟨q',ys,hrun,hold,hperm,hord⟩ := heapify_holds hc (q := q₁) (by rw [hsl]; exact h₁) hdown
  refine ⟨q',ys,?_,hold,hperm,hord⟩
  have hget' : Smartlist.get { sl with numUsed := n } n = some last := hget
  simp [fill,hget',hset,hidx,hrun]

/-- The root is popped, and the others stay ordered. -/
theorem pop_holds {top : α} (h : q.sl.Holds (top :: xs))
    (hord : Ordered (Before compare) (top :: xs)) :
    ∃ q' ys, pop compare q = some (q',top) ∧ q'.sl.Holds ys ∧ ys.Perm xs ∧
      Ordered (Before compare) ys := by
  have := hc.connected
  have hget : q.sl.get 0 = some top := by rw [h.get_eq (Nat.succ_pos _)]; rfl
  have hused := h.used
  rcases List.eq_nil_or_concat xs with rfl | ⟨zs,last,rfl⟩
  · refine ⟨⟨{ q.sl with numUsed := 0 },Function.update q.idx top (-1)⟩,[],?_,
      h.take (Nat.zero_le _),.refl _,fun i _ a b ha => by cases ha⟩
    rw [List.length_singleton] at hused
    simp [pop,hget,hused]
  · have hn : (top :: zs.concat last).length = zs.length+1+1 := by simp
    have hlist : ((top :: zs.concat last).take (zs.length+1)).set 0 last = last :: zs := by simp
    have hdown := (hord.take (zs.length+1)).downAt (k := 0) (a := last)
      fun hlt => absurd hlt (lt_irrefl 0)
    obtain ⟨q',ys,hfill,hold,hperm,hord'⟩ := fill_holds hc h (Function.update q.idx top (-1)) hn
      (Nat.succ_pos _) (by simp) hdown
    rw [hlist] at hperm
    refine ⟨q',ys,?_,hold,hperm.trans (by simpa using (List.perm_append_singleton last zs).symm),
      hord'⟩
    rw [hn] at hused
    simp [pop,hget,hused,hfill]

end Spec

end PQueue

end WpaCliWrapper
