import Mathlib.Data.List.Infix

/-! Smartlists: an allocated block of pointers of which the first `numUsed` are in use. An
operation that accesses a cell outside the block, that leaves `int` or that does not end gives
`none`. -/
namespace WpaCliWrapper

/-- `smartlist_t`. The pointers are the elements of a type. -/
structure Smartlist (α : Type*) where
  list : List α
  numUsed : ℕ
  capacity : ℕ
  deriving DecidableEq

/-- The comparison of numbers by their difference. -/
def difference (a b : ℕ) : ℤ := a-b

namespace Smartlist
variable {α : Type*}

def defaultCapacity : ℕ := 16

/-- The pointers in use. -/
def items (sl : Smartlist α) : List α := sl.list.take sl.numUsed

section Memory

/-- `realloc` keeps the cells of the block, and leaves anything in those that it adds. -/
def realloc (fresh : ℕ → α) (block : List α) (n : ℕ) : List α :=
  (List.range n).map fun i => block.getD i (fresh i)

/-- `memcpy` or `memmove` of some cells of a block to another place or into another block. -/
def copyCells (dst : List α) (pos : ℕ) (src : List α) (start n : ℕ) : Option (List α) :=
  if pos+n ≤ dst.length ∧ start+n ≤ src.length then
    some (dst.take pos ++ (src.drop start).take n ++ dst.drop (pos+n))
  else none

def get (sl : Smartlist α) (idx : ℕ) : Option α := sl.list[idx]?

def set (sl : Smartlist α) (idx : ℕ) (val : α) : Option (Smartlist α) :=
  if idx < sl.list.length then some { sl with list := sl.list.set idx val } else none

/-- The cells of the block are moved, or copied from another block. -/
def copy (sl : Smartlist α) (pos : ℕ) (src : List α) (start n : ℕ) : Option (Smartlist α) :=
  (copyCells sl.list pos src start n).map fun list => { sl with list }

end Memory

section Operations
variable (null : α) (fresh : ℕ → α)

def new : Smartlist α := ⟨List.replicate defaultCapacity null,0,defaultCapacity⟩

def clear (sl : Smartlist α) : Smartlist α := { sl with numUsed := 0 }

/-- What keeps a computation in `int` from its result. -/
inductive IntFault where
  | overflow
  | endless

/-- A value of `int`. -/
def checked (z : ℤ) : Except IntFault ℤ :=
  if -2147483648 ≤ z ∧ z ≤ 2147483647 then .ok z else .error .overflow

/-- The loop that doubles the capacity until it is enough, for at most some rounds. -/
def higherLoop (int : ℤ → Except IntFault ℤ) (size : ℤ) : ℕ → ℤ → Except IntFault ℤ
  | 0, higher => if size > higher then .error .endless else .ok higher
  | rounds+1, higher =>
    if size > higher then do higherLoop int size rounds (← int (higher*2)) else .ok higher

/-- `smartlist_ensure_capacity`. The size is an `int` that the caller computes. -/
def ensureCapacity (sl : Smartlist α) (size : ℕ) : Option (Smartlist α) :=
  if 2147483647 < size then none
  else if sl.capacity < size then
    (higherLoop checked size size sl.capacity).toOption.map fun higher =>
      { sl with capacity := higher.toNat, list := realloc fresh sl.list higher.toNat }
  else some sl

def add (sl : Smartlist α) (element : α) : Option (Smartlist α) := do
  let sl ← ensureCapacity fresh sl (sl.numUsed+1)
  let sl' ← sl.set sl.numUsed element
  return { sl' with numUsed := sl.numUsed+1 }

/-- The loop of `smartlist_remove` from `i` on, for at most some rounds. The last pointer takes
the place of one that is removed, and is looked at next. -/
def removeLoop [DecidableEq α] (element : α) : ℕ → Smartlist α → ℕ → Option (Smartlist α)
  | 0, sl, i => if i < sl.numUsed then none else some sl
  | rounds+1, sl, i =>
    if i < sl.numUsed then do
      if (← sl.get i) = element then
        let last ← sl.get (sl.numUsed-1)
        let sl' ← set { sl with numUsed := sl.numUsed-1 } i last
        removeLoop element rounds sl' i
      else removeLoop element rounds sl (i+1)
    else some sl

def remove [DecidableEq α] (sl : Smartlist α) (element : α) : Option (Smartlist α) :=
  if element = null then some sl else removeLoop element sl.numUsed sl 0

def popLast (sl : Smartlist α) : Option (Smartlist α × α) :=
  match sl.numUsed with
  | 0 => some (sl,null)
  | n+1 => (sl.get n).map fun last => ({ sl with numUsed := n },last)

/-- Two cells are exchanged, by way of a temporary. -/
def exchange (sl : Smartlist α) (i j : ℕ) : Option (Smartlist α) := do
  let tmp ← sl.get i
  let sl' ← sl.set i (← sl.get j)
  sl'.set j tmp

def reverseLoop : ℕ → Smartlist α → ℕ → ℕ → Option (Smartlist α)
  | 0, sl, i, j => if i < j then none else some sl
  | rounds+1, sl, i, j =>
    if i < j then do reverseLoop rounds (← sl.exchange i j) (i+1) (j-1) else some sl

def reverse (sl : Smartlist α) : Option (Smartlist α) :=
  reverseLoop sl.numUsed sl 0 (sl.numUsed-1)

def swap (sl : Smartlist α) (idx1 idx2 : ℕ) : Option (Smartlist α) :=
  if idx1 = idx2 then some sl else sl.exchange idx1 idx2

def del (sl : Smartlist α) (idx : ℕ) : Option (Smartlist α) :=
  match sl.numUsed with
  | 0 => none
  | n+1 => do set { sl with numUsed := n } idx (← sl.get n)

def delKeeporder (sl : Smartlist α) (idx : ℕ) : Option (Smartlist α) :=
  match sl.numUsed with
  | 0 => none
  | n+1 =>
    if idx < n then copy { sl with numUsed := n } idx sl.list (idx+1) (n-idx)
    else some { sl with numUsed := n }

def insert (sl : Smartlist α) (idx : ℕ) (val : α) : Option (Smartlist α) :=
  if idx = sl.numUsed then add fresh sl val
  else do
    let sl ← ensureCapacity fresh sl (sl.numUsed+1)
    let sl' ← if idx < sl.numUsed then sl.copy (idx+1) sl.list idx (sl.numUsed-idx) else some sl
    set { sl' with numUsed := sl.numUsed+1 } idx val

end Operations

/-- The block holds these elements first, and its size is the capacity. -/
structure Holds (sl : Smartlist α) (xs : List α) : Prop where
  cells : ∃ rest, sl.list = xs ++ rest
  used : sl.numUsed = xs.length
  block : sl.list.length = sl.capacity
  positive : 0 < sl.capacity

section Views
variable {sl : Smartlist α} {xs : List α} (h : sl.Holds xs)
include h

theorem Holds.items_eq : sl.items = xs := by
  obtain ⟨rest,hlist⟩ := h.cells
  rw [items,hlist,h.used]
  exact List.take_left

theorem Holds.length_le : xs.length ≤ sl.list.length := by
  obtain ⟨rest,hlist⟩ := h.cells
  rw [hlist,List.length_append]
  exact Nat.le_add_right _ _

theorem Holds.numUsed_le : sl.numUsed ≤ sl.capacity := by
  rw [h.used,← h.block]
  exact h.length_le

theorem Holds.get_eq {i : ℕ} (hi : i < xs.length) : sl.get i = xs[i]? := by
  obtain ⟨rest,hlist⟩ := h.cells
  rw [get,hlist,List.getElem?_append_left hi]

/-- A pointer in use is written, and then fewer are in use: the others stay in the block. -/
theorem Holds.set_take {i n : ℕ} (hi : i < xs.length) (hn : n ≤ xs.length) (x : α) :
    ∃ sl', set { sl with numUsed := n } i x = some sl' ∧ sl'.Holds ((xs.set i x).take n) ∧
      sl'.capacity = sl.capacity := by
  obtain ⟨rest,hlist⟩ := h.cells
  refine ⟨_,if_pos (Nat.lt_of_lt_of_le hi h.length_le),⟨?_,?_,?_,h.positive⟩,rfl⟩
  · refine ⟨(xs.set i x).drop n ++ rest,?_⟩
    rw [← List.append_assoc,List.take_append_drop]
    change sl.list.set i x = _
    rw [hlist,List.set_append_left i x hi]
  · rw [List.length_take,List.length_set,Nat.min_eq_left hn]
  · exact List.length_set.trans h.block

theorem Holds.set_eq {i : ℕ} (hi : i < xs.length) (x : α) :
    ∃ sl', sl.set i x = some sl' ∧ sl'.Holds (xs.set i x) ∧ sl'.capacity = sl.capacity := by
  have hset := h.set_take hi (le_refl _) x
  rw [List.take_of_length_le (le_of_eq List.length_set),← h.used] at hset
  exact hset

theorem Holds.take {n : ℕ} (hn : n ≤ xs.length) :
    Holds { sl with numUsed := n } (xs.take n) := by
  obtain ⟨rest,hlist⟩ := h.cells
  refine ⟨⟨xs.drop n ++ rest,?_⟩,(List.length_take_of_le hn).symm,h.block,h.positive⟩
  rw [← List.append_assoc,List.take_append_drop]
  exact hlist

/-- The first cell that is not in use is written and taken into use. -/
theorem Holds.push (hroom : xs.length < sl.capacity) (x : α) :
    ∃ sl', sl.set sl.numUsed x = some sl' ∧
      Holds { sl' with numUsed := sl.numUsed+1 } (xs ++ [x]) ∧ sl'.capacity = sl.capacity := by
  obtain ⟨rest,hlist⟩ := h.cells
  rw [← h.block] at hroom
  refine ⟨_,if_pos (by rw [h.used]; exact hroom),⟨?_,?_,?_,h.positive⟩,rfl⟩
  · cases rest with
    | nil => simp [hlist] at hroom
    | cons c rest =>
      refine ⟨rest,?_⟩
      change sl.list.set sl.numUsed x = _
      rw [hlist,h.used]
      simp
  · simp [h.used]
  · exact List.length_set.trans h.block

end Views

/-- A loop over the pointers in use goes on to the next one. -/
theorem Holds.get_next {sl : Smartlist α} {before rest : List α} {x : α}
    (h : sl.Holds (before ++ x :: rest)) :
    before.length < sl.numUsed ∧ sl.get before.length = some x := by
  constructor
  · simp [h.used]
  · rw [h.get_eq (by simp)]
    simp

theorem holds_new (null : α) : (new null).Holds [] :=
  ⟨⟨_,rfl⟩,rfl,List.length_replicate,Nat.succ_pos 15⟩

/-- A smartlist that is full. -/
theorem holds_replicate {n : ℕ} (hn : 0 < n) (x : α) :
    Holds ⟨List.replicate n x,n,n⟩ (List.replicate n x) :=
  ⟨⟨[],(List.append_nil _).symm⟩,List.length_replicate.symm,List.length_replicate,hn⟩

theorem Holds.clear {sl : Smartlist α} {xs : List α} (h : sl.Holds xs) : sl.clear.Holds [] :=
  ⟨⟨_,rfl⟩,rfl,h.block,h.positive⟩

end Smartlist

end WpaCliWrapper
