import WpaCliWrapper.Smartlist.Operations

/-! The growth of smartlists in `int`, where a sum or a product out of range is a fault. -/
namespace WpaCliWrapper
namespace Smartlist

/-- A value of `int` on a machine that goes on from the other end of the range. -/
def wrapped (z : ℤ) : Except IntFault ℤ :=
  .ok ((z+2147483648)%4294967296-2147483648)

/-- A capacity as the code allocates it. -/
def Grown (c : ℕ) : Prop := ∃ k, c = 16*2^k

section Loop

theorem checked_overflow {n : ℕ} (h : 2147483647 < n) : checked n = .error .overflow :=
  if_neg (by omega)

/-- A capacity in the range of `int` is the last power of two there, or can still be doubled. -/
theorem grown_double {c : ℕ} (hc : Grown c) (hint : c ≤ 2147483647) :
    c = 2^30 ∨ c ≤ 2^29 ∧ Grown (c*2) := by
  obtain ⟨k,rfl⟩ := hc
  rcases Nat.lt_trichotomy k 26 with hk | rfl | hk
  · right
    have hpow : 2^k ≤ 2^25 := Nat.pow_le_pow_right (by decide) (by omega)
    exact ⟨by omega,k+1,by ring⟩
  · exact Or.inl rfl
  · have hpow : 2^27 ≤ 2^k := Nat.pow_le_pow_right (by decide) hk
    omega

theorem grown_le {c : ℕ} (hc : Grown c) (hint : c ≤ 2147483647) : c ≤ 2^30 := by
  rcases grown_double hc hint with h | ⟨h,-⟩ <;> omega

theorem Grown.mul {c : ℕ} (hc : Grown c) (k : ℕ) : Grown (c*2^k) := by
  obtain ⟨j,rfl⟩ := hc
  exact ⟨j+k,by rw [Nat.pow_add,Nat.mul_assoc]⟩

theorem mul_two_pow_succ (c rounds : ℕ) : c*2^(rounds+1) = c*2*2^rounds := by
  rw [Nat.pow_succ',Nat.mul_assoc]

/-- Beyond the last power of two the loop doubles until the product overflows. -/
theorem higherLoop_overflow {size : ℕ} (hsize : 2^30 < size) (rounds : ℕ) {c : ℕ} (hc : Grown c)
    (hint : c ≤ 2147483647) (henough : 2^30 < c*2^rounds) :
    higherLoop checked size rounds c = .error .overflow := by
  have hle := grown_le hc hint
  induction rounds generalizing c with
  | zero => omega
  | succ rounds ih =>
    rw [higherLoop_double checked (by omega)]
    rcases grown_double hc hint with rfl | ⟨hle,hdouble⟩
    · rw [checked_overflow (by omega)]
      rfl
    · rw [checked_eq (by omega)]
      exact ih hdouble (by omega) (henough.trans_eq (mul_two_pow_succ c rounds)) (by omega)

/-- Where `int` wraps around, the capacity becomes negative, then zero, and the loop never ends. -/
theorem higherLoop_wrapped {size : ℕ} (hsize : 2^30 < size) (rounds : ℕ) {c : ℤ}
    (hc : c = 0 ∨ c = -2147483648 ∨ ∃ n : ℕ, c = n ∧ Grown n ∧ n ≤ 2147483647) :
    higherLoop wrapped size rounds c = .error .endless := by
  have hlt : (size : ℤ) > c := by
    rcases hc with rfl | rfl | ⟨n,rfl,hn,hint⟩
    · omega
    · omega
    · have := grown_le hn hint
      omega
  induction rounds generalizing c with
  | zero => exact if_pos hlt
  | succ rounds ih =>
    rw [higherLoop,if_pos hlt]
    change higherLoop wrapped size rounds ((c*2+2147483648)%4294967296-2147483648) = _
    rcases hc with rfl | rfl | ⟨n,rfl,hn,hint⟩
    · exact ih (.inl rfl) (by omega)
    · exact ih (.inl rfl) (by omega)
    · rcases grown_double hn hint with rfl | ⟨hle,hdouble⟩
      · exact ih (.inr (.inl rfl)) (by omega)
      · refine ih (.inr (.inr ⟨n*2,by push_cast; omega,hdouble,by omega⟩)) (by omega)

end Loop

namespace Ints
variable {α : Type} (fresh : ℕ → α)

section Operations

def ensureCapacity (sl : Smartlist α) (size : ℤ) : Except IntFault (Smartlist α) :=
  if size > sl.capacity then do
    let higher ← higherLoop checked size size.toNat sl.capacity
    return { sl with capacity := higher.toNat, list := realloc fresh sl.list higher.toNat }
  else .ok sl

/-- The callers of `smartlist_ensure_capacity`, with the pointers they add. -/
inductive Request (α : Type) where
  | add (element : α)
  | insert (idx : ℕ) (val : α)
  | addAll (s2 : Smartlist α)

/-- The number of pointers in use after the request. -/
def Request.newSize (sl : Smartlist α) : Request α → ℕ
  | .add _ => sl.numUsed+1
  | .insert _ _ => sl.numUsed+1
  | .addAll s2 => sl.numUsed+s2.numUsed

/-- The new size is computed in `int`, and there is room for it then. -/
def Request.room (r : Request α) (sl : Smartlist α) : Except IntFault (Smartlist α) := do
  ensureCapacity fresh sl (← checked (r.newSize sl))

end Operations

section Growth

/-- There is no fault, and the capacity is enough and still as the code allocates it. -/
def MakesRoom (size : ℕ) : Except IntFault (Smartlist α) → Prop
  | .ok sl => size ≤ sl.capacity ∧ Grown sl.capacity
  | .error _ => False

variable {sl : Smartlist α} (hcap : Grown sl.capacity) (hint : sl.capacity ≤ 2147483647)
include hcap

theorem capacity_pos : 0 < sl.capacity := by
  obtain ⟨k,hk⟩ := hcap
  rw [hk]
  exact Nat.mul_pos (by omega) (Nat.two_pow_pos k)

include hint

/-- Up to the last power of two the smartlist grows without a fault. -/
theorem ensureCapacity_ok {size : ℕ} (hsize : size ≤ 2^30) : ∃ sl',
    ensureCapacity fresh sl size = .ok sl' ∧ size ≤ sl'.capacity ∧ Grown sl'.capacity ∧
      sl'.capacity ≤ 2147483647 := by
  by_cases h : sl.capacity < size
  · obtain ⟨c,hloop,hle,hmax,k,hk⟩ := higherLoop_enough hsize size (capacity_pos hcap)
      (Nat.le_trans (le_of_lt Nat.lt_two_pow_self) (Nat.le_mul_of_pos_left _ (capacity_pos hcap)))
    have hint' : c ≤ 2147483647 := by omega
    refine ⟨{ sl with capacity := c, list := realloc fresh sl.list c },?_,hle,hk ▸ hcap.mul k,hint'⟩
    rw [ensureCapacity,if_pos (by omega),Int.toNat_natCast,hloop]
    rfl
  · exact ⟨sl,if_neg (by omega),by omega,hcap,hint⟩

theorem ensureCapacity_overflow {size : ℕ} (hsize : 2^30 < size) :
    ensureCapacity fresh sl size = .error .overflow := by
  have hle := grown_le hcap hint
  have hloop := higherLoop_overflow hsize size hcap hint (Nat.lt_of_lt_of_le
    (hsize.trans Nat.lt_two_pow_self) (Nat.le_mul_of_pos_left _ (capacity_pos hcap)))
  rw [ensureCapacity,if_pos (by omega),Int.toNat_natCast,hloop]
  rfl

theorem ensureCapacity_makesRoom (size : ℕ) :
    MakesRoom size (ensureCapacity fresh sl size) ↔ size ≤ 2^30 := by
  constructor
  · intro h
    by_contra hsize
    rw [ensureCapacity_overflow fresh hcap hint (by omega)] at h
    exact h
  · intro hsize
    obtain ⟨sl',he,hle,hgrown,-⟩ := ensureCapacity_ok fresh hcap hint hsize
    rw [he]
    exact ⟨hle,hgrown⟩

theorem request_overflow {size : ℕ} (hsize : 2^30 < size) :
    (checked size >>= fun size => ensureCapacity fresh sl size) = .error .overflow := by
  by_cases h : size ≤ 2147483647
  · rw [checked_eq h]
    exact ensureCapacity_overflow fresh hcap hint hsize
  · rw [checked_overflow (by omega)]
    rfl

/-- Every request for room is met up to the last power of two in the range of `int`, and none is
beyond it. -/
theorem request_sound_iff :
    (∀ size : ℕ, size ≤ 2147483647 →
      (MakesRoom size (ensureCapacity fresh sl size) ↔ size ≤ 2^30)) ∧
    ∀ r : Request α, MakesRoom (r.newSize sl) (r.room fresh sl) ↔ r.newSize sl ≤ 2^30 := by
  refine ⟨fun size _ => ensureCapacity_makesRoom fresh hcap hint size,fun r => ?_⟩
  by_cases h : r.newSize sl ≤ 2147483647
  · rw [Request.room,checked_eq h]
    exact ensureCapacity_makesRoom fresh hcap hint (r.newSize sl)
  · rw [Request.room,request_overflow fresh hcap hint (by omega)]
    exact iff_of_false id (by omega)

end Growth

/-- A list that is full and can grow once more. -/
def halfFull : Smartlist ℕ := ⟨List.replicate 536870912 0,536870912,536870912⟩

theorem request_sound_half :
    MakesRoom (halfFull.numUsed+1) (Request.room id (.add 7) halfFull) :=
  ((request_sound_iff id (show Grown halfFull.capacity from ⟨25,rfl⟩) (by decide)).2
    (.add 7)).mpr (by decide)

/-- A list that fills the last power of two. -/
def lastFull : Smartlist ℕ := ⟨List.replicate 1073741824 0,1073741824,1073741824⟩

/-- Another pointer overflows; where `int` wraps around the loop never ends. A list that is added to
itself overflows in the sum. -/
theorem request_unsound : lastFull.numUsed ≤ lastFull.capacity ∧
    lastFull.capacity = 16*2^26 ∧ lastFull.numUsed+1 ≤ 2147483647 ∧
    Request.room id (.add 7) lastFull = .error .overflow ∧
    (∀ rounds, higherLoop wrapped 1073741825 rounds 1073741824 = .error .endless) ∧
    Request.room id (.addAll lastFull) lastFull = .error .overflow := by
  have hcap : Grown lastFull.capacity := ⟨26,rfl⟩
  refine ⟨le_refl _,rfl,by decide,?_,fun rounds => ?_,?_⟩
  · exact request_overflow id hcap (by decide) (by decide)
  · exact higherLoop_wrapped (by decide) rounds (.inr (.inr ⟨1073741824,rfl,hcap,by decide⟩))
  · exact request_overflow id hcap (by decide) (by decide)

end Ints

/-- What `smartlist_ensure_capacity` does to a size that was computed in `int`. -/
theorem ensureCapacity_eq {α : Type} (fresh : ℕ → α) (sl : Smartlist α) (size : ℕ) :
    ensureCapacity fresh sl size =
      (checked size >>= fun size => Ints.ensureCapacity fresh sl size).toOption := by
  rw [ensureCapacity]
  by_cases hint : size ≤ 2147483647
  · rw [if_neg (by omega),checked_eq hint]
    change _ = (Ints.ensureCapacity fresh sl size).toOption
    rw [Ints.ensureCapacity,Int.toNat_natCast]
    by_cases h : sl.capacity < size
    · rw [if_pos h,if_pos (by omega)]
      cases higherLoop checked size size sl.capacity <;> rfl
    · rw [if_neg h,if_neg (by omega)]
      rfl
  · rw [if_pos (by omega),checked_overflow (by omega)]
    rfl

/-- The capacity is one that the code allocates. -/
structure Allocated {α : Type*} (sl : Smartlist α) : Prop where
  grown : Grown sl.capacity
  int : sl.capacity ≤ 2147483647

section Allocated
variable {α : Type} {sl sl' : Smartlist α} {fresh : ℕ → α} (ha : sl.Allocated)

theorem allocated_new (null : α) : (new null).Allocated := ⟨⟨0,rfl⟩,show 16 ≤ 2147483647 by decide⟩

theorem Allocated.of_capacity_eq {α : Type*} {sl sl' : Smartlist α} (ha : sl.Allocated)
    (h : sl'.capacity = sl.capacity) : sl'.Allocated :=
  ⟨h ▸ ha.grown,h ▸ ha.int⟩

include ha

/-- Room is made up to the last power of two only. -/
theorem Allocated.ensureCapacity {size : ℕ} (h : ensureCapacity fresh sl size = some sl') :
    sl'.Allocated ∧ size ≤ 2^30 := by
  rw [ensureCapacity_eq] at h
  by_cases hsize : size ≤ 2^30
  · obtain ⟨sl₁,he,-,hgrown,hint⟩ := Ints.ensureCapacity_ok fresh ha.grown ha.int hsize
    rw [checked_eq (by omega)] at h
    change (Ints.ensureCapacity fresh sl size).toOption = _ at h
    rw [he] at h
    cases h
    exact ⟨⟨hgrown,hint⟩,hsize⟩
  · rw [Ints.request_overflow fresh ha.grown ha.int (by omega)] at h
    cases h

theorem Allocated.add {x : α} (h : add fresh sl x = some sl') :
    sl'.Allocated ∧ sl.numUsed < 2^30 := by
  obtain ⟨sl₁,he,h⟩ := Option.bind_eq_some_iff.mp h
  obtain ⟨sl₂,hset,h⟩ := Option.bind_eq_some_iff.mp h
  obtain ⟨ha₁,hsize⟩ := ha.ensureCapacity he
  cases h
  have hcap : sl₂.capacity = sl₁.capacity := set_capacity hset
  exact ⟨ha₁.of_capacity_eq hcap,hsize⟩

theorem Allocated.insert {idx : ℕ} {x : α} (h : insert fresh sl idx x = some sl') :
    sl.numUsed < 2^30 := by
  rw [Smartlist.insert] at h
  split at h
  · exact (ha.add h).2
  · obtain ⟨sl₁,he,-⟩ := Option.bind_eq_some_iff.mp h
    exact (ha.ensureCapacity he).2

/-- A list of pointers fits into the last power of two. -/
theorem Allocated.length_le {xs : List α} (h : sl.Holds xs) : xs.length ≤ 2^30 := by
  rw [← h.used]
  exact h.numUsed_le.trans (grown_le ha.grown ha.int)

end Allocated

section Runs
variable {α : Type} (fresh : ℕ → ℕ → α)

/-- Some pointers are added, each with its own contents of fresh memory. -/
def addEach : List α → ℕ → Smartlist α → Option (Smartlist α)
  | [], _, sl => some sl
  | x :: xs, n, sl => do addEach xs (n+1) (← add (fresh n) sl x)

theorem addEach_append (xs ys : List α) (n : ℕ) (sl : Smartlist α) :
    addEach fresh (xs ++ ys) n sl =
      (addEach fresh xs n sl).bind (addEach fresh ys (n+xs.length)) := by
  induction xs generalizing n sl with
  | nil => rfl
  | cons x xs ih =>
    rw [List.cons_append,addEach,addEach,List.length_cons]
    cases add (fresh n) sl x with
    | none => rfl
    | some sl' =>
      rw [Nat.add_comm xs.length,← Nat.add_assoc]
      exact ih (n+1) sl'

variable {fresh} {sl : Smartlist α} {ys : List α}

theorem Holds.addEach (h : sl.Holds ys) {xs : List α} (hlen : ys.length+xs.length ≤ 2^30) (n : ℕ) :
    ∃ sl', addEach fresh xs n sl = some sl' ∧ sl'.Holds (ys ++ xs) := by
  induction xs generalizing sl ys n with
  | nil => exact ⟨sl,rfl,by rwa [List.append_nil]⟩
  | cons x xs ih =>
    rw [List.length_cons] at hlen
    obtain ⟨sl₁,hadd,h₁,-⟩ := h.add (fresh n) (show ys.length < 2^30 by omega) x
    obtain ⟨sl',hrest,hold⟩ := ih h₁ (by rw [List.length_append,List.length_singleton]; omega) (n+1)
    refine ⟨sl',?_,by simpa using hold⟩
    rw [Smartlist.addEach,hadd]
    exact hrest

/-- A run of `smartlist_add` succeeds as long as the last power of two is not full. -/
theorem addEach_iff (h : sl.Holds ys) (ha : sl.Allocated) (xs : List α) (n : ℕ) :
    (∃ sl', addEach fresh xs n sl = some sl') ↔ ys.length+xs.length ≤ 2^30 := by
  constructor
  · rintro ⟨sl',hrun⟩
    induction xs generalizing sl ys n with
    | nil => exact ha.length_le h
    | cons x xs ih =>
      obtain ⟨sl₁,hadd,hrest⟩ := Option.bind_eq_some_iff.mp hrun
      obtain ⟨ha₁,hlt⟩ := ha.add hadd
      rw [h.used] at hlt
      obtain ⟨sl₂,hadd₂,h₁,-⟩ := h.add (fresh n) hlt x
      cases hadd.symm.trans hadd₂
      have hlen := ih h₁ ha₁ (n+1) hrest
      rwa [List.length_append,List.length_singleton,Nat.add_assoc,Nat.add_comm 1] at hlen
  · intro hlen
    obtain ⟨sl',hrun,-⟩ := h.addEach hlen n
    exact ⟨sl',hrun⟩

end Runs

end Smartlist

end WpaCliWrapper
