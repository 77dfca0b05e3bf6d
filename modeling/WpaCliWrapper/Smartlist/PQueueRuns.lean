import WpaCliWrapper.Smartlist.PQueue

/-! Runs that add and pop items in any order. -/
namespace WpaCliWrapper
open Heap

namespace PQueue
variable {α : Type} [DecidableEq α] (compare : α → α → ℤ)

/-- An item is added, with the contents of fresh memory, or one is popped. -/
inductive Op (α : Type) where
  | add (item : α) (fresh : ℕ → α)
  | pop

/-- A popped item and the items that were in the queue before. -/
structure Popped (α : Type) where
  items : List α
  top : α

def step (q : PQueue α) : Op α → Option (PQueue α × List (Popped α))
  | .add item fresh => do return (← add compare fresh q item,[])
  | .pop => do
    let (q',top) ← pop compare q
    return (q',[⟨q.sl.items,top⟩])

/-- A run, and what it pops. -/
def run (q : PQueue α) : List (Op α) → Option (PQueue α × List (Popped α))
  | [] => some (q,[])
  | op :: ops => do
    let (q₁,popped) ← step compare q op
    let (q₂,more) ← run q₁ ops
    return (q₂,popped ++ more)

/-- Nothing is popped when the queue is empty, with some items to begin with. -/
def Allowed : ℕ → List (Op α) → Prop
  | _, [] => True
  | n, .add _ _ :: ops => Allowed (n+1) ops
  | n, .pop :: ops => 0 < n ∧ Allowed (n-1) ops

/-- Every item that is added finds fewer than 2^30 items in the queue. -/
def Roomy : ℕ → List (Op α) → Prop
  | _, [] => True
  | n, .add _ _ :: ops => n < 2^30 ∧ Roomy (n+1) ops
  | n, .pop :: ops => Roomy (n-1) ops

/-- Only items are added. -/
def adds (items : List (α × (ℕ → α))) : List (Op α) := items.map fun i => .add i.1 i.2

/-- The items that a run adds. -/
def added : List (Op α) → List α
  | [] => []
  | .add item _ :: ops => item :: added ops
  | .pop :: ops => added ops

/-- An empty queue. The index fields hold anything. -/
def empty (null : α) (idx : α → ℤ) : PQueue α := ⟨Smartlist.new null,idx⟩

/-- The item compares less or equal to every item in the queue, of which it is one. -/
def Popped.Least (p : Popped α) : Prop := p.top ∈ p.items ∧ ∀ item ∈ p.items, compare p.top item ≤ 0

/-- The run ends, each popped item is a least one, and no item is lost or duplicated. -/
def Serves (q : PQueue α) (ops : List (Op α)) : Prop :=
  ∃ q' popped, run compare q ops = some (q',popped) ∧ (∀ p ∈ popped, p.Least compare) ∧
    (q'.sl.items ++ popped.map Popped.top).Perm (added ops)

/-- Items that are all added before as many are popped come out sorted. -/
def Sorts (q : PQueue α) (items : List (α × (ℕ → α))) : Prop :=
  ∃ q' popped, run compare q (adds items ++ List.replicate items.length .pop) = some (q',popped) ∧
    q'.sl.items = [] ∧ (popped.map Popped.top).Pairwise (compare · · ≤ 0) ∧
      (popped.map Popped.top).Perm (items.map Prod.fst)

theorem run_append {ops ops' : List (Op α)} {q q₁ q₂ : PQueue α} {popped more : List (Popped α)}
    (h₁ : run compare q ops = some (q₁,popped)) (h₂ : run compare q₁ ops' = some (q₂,more)) :
    run compare q (ops ++ ops') = some (q₂,popped ++ more) := by
  induction ops generalizing q popped with
  | nil =>
    cases h₁
    exact h₂
  | cons op ops ih =>
    obtain ⟨⟨q',first⟩,hstep,h₁⟩ := Option.bind_eq_some_iff.mp h₁
    obtain ⟨⟨q'',rest⟩,hrun,h₁⟩ := Option.bind_eq_some_iff.mp h₁
    cases h₁
    simp [run,hstep,ih hrun]

theorem run_of_append {ops ops' : List (Op α)} {q : PQueue α} {r : PQueue α × List (Popped α)}
    (h : run compare q (ops ++ ops') = some r) : ∃ r', run compare q ops = some r' := by
  induction ops generalizing q r with
  | nil => exact ⟨_,rfl⟩
  | cons op ops ih =>
    obtain ⟨first,hstep,h⟩ := Option.bind_eq_some_iff.mp h
    obtain ⟨rest,hrest,-⟩ := Option.bind_eq_some_iff.mp h
    obtain ⟨r',hr'⟩ := ih hrest
    exact ⟨(r'.1,first.2 ++ r'.2),by simp [run,hstep,hr']⟩

omit [DecidableEq α] in
theorem allowed_adds (items : List (α × (ℕ → α))) (n : ℕ) : Allowed n (adds items) := by
  induction items generalizing n with
  | nil => trivial
  | cons _ items ih => exact ih (n+1)

omit [DecidableEq α] in
theorem roomy_adds_iff {n : ℕ} (hn : n ≤ 2^30) (items : List (α × (ℕ → α))) :
    Roomy n (adds items) ↔ n+items.length ≤ 2^30 := by
  induction items generalizing n with
  | nil => exact iff_of_true trivial hn
  | cons _ items ih =>
    rw [List.length_cons]
    constructor
    · rintro ⟨hlt,hrest⟩
      have hlen := (ih hlt).mp hrest
      omega
    · intro hlen
      exact ⟨by omega,(ih (by omega)).mpr (by omega)⟩

section Runs
variable {compare} (hc : Comparison compare)
include hc

omit [DecidableEq α] in
theorem least_of_ordered {top : α} {xs : List α} (hord : Ordered (Before compare) (top :: xs)) :
    Popped.Least compare ⟨top :: xs,top⟩ := by
  have := hc.asymm
  have := hc.connected
  refine ⟨List.mem_cons_self,fun item hmem => ?_⟩
  obtain ⟨i,hi⟩ := List.mem_iff_getElem?.mp hmem
  exact (not_before_iff hc).mp (hord.root_le i item top hi rfl)

theorem step_pop {q : PQueue α} {xs : List α} (h : q.sl.Holds xs)
    (hord : Ordered (Before compare) xs) (hpos : 0 < xs.length) :
    ∃ q' ys top, step compare q .pop = some (q',[⟨xs,top⟩]) ∧ q'.sl.Holds ys ∧
      Ordered (Before compare) ys ∧ (top :: ys).Perm xs ∧ Popped.Least compare ⟨xs,top⟩ := by
  cases xs with
  | nil => cases hpos
  | cons top xs =>
    obtain ⟨q',ys,hpop,hold,hperm,hord'⟩ := pop_holds hc h hord
    refine ⟨q',ys,top,?_,hold,hord',hperm.cons top,least_of_ordered hc hord⟩
    simp [step,hpop,h.items_eq]

theorem run_holds {ops : List (Op α)} {q : PQueue α} {xs : List α} (h : q.sl.Holds xs)
    (hord : Ordered (Before compare) xs) (hops : Allowed xs.length ops)
    (hroom : Roomy xs.length ops) :
    ∃ q' ys popped, run compare q ops = some (q',popped) ∧ q'.sl.Holds ys ∧
      Ordered (Before compare) ys ∧ (ys ++ popped.map Popped.top).Perm (added ops ++ xs) ∧
      ∀ p ∈ popped, p.Least compare := by
  induction ops generalizing q xs with
  | nil => exact ⟨q,xs,[],rfl,h,hord,by simp [added],by simp⟩
  | cons op ops ih =>
    cases op with
    | add item fresh =>
      obtain ⟨q₁,zs,hadd,h₁,hperm₁,hord₁⟩ := add_holds hc h hord hroom.1 fresh item
      have hlen : zs.length = xs.length+1 := hperm₁.length_eq
      obtain ⟨q',ys,popped,hrun,hold,hord',hperm,hleast⟩ :=
        ih h₁ hord₁ (hlen ▸ hops) (hlen ▸ hroom.2)
      refine ⟨q',ys,popped,?_,hold,hord',?_,hleast⟩
      · simp [run,step,hadd,hrun]
      · exact hperm.trans ((hperm₁.append_left _).trans List.perm_middle)
    | pop =>
      obtain ⟨q₁,zs,top,hpop,h₁,hord₁,hperm₁,hleast₁⟩ := step_pop hc h hord hops.1
      have hlen : zs.length = xs.length-1 := by
        rw [← hperm₁.length_eq]
        rfl
      obtain ⟨q',ys,popped,hrun,hold,hord',hperm,hleast⟩ :=
        ih h₁ hord₁ (hlen ▸ hops.2) (hlen ▸ hroom)
      refine ⟨q',ys,⟨xs,top⟩ :: popped,?_,hold,hord',?_,?_⟩
      · simp [run,hpop,hrun]
      · change (ys ++ top :: popped.map Popped.top).Perm (added ops ++ xs)
        exact List.perm_middle.trans ((hperm.cons top).trans
          (List.perm_middle.symm.trans (hperm₁.append_left _)))
      · exact List.forall_mem_cons.mpr ⟨hleast₁,hleast⟩

/-- A run that ends has found room for each item. -/
theorem run_roomy {ops : List (Op α)} {q : PQueue α} {xs : List α} (h : q.sl.Holds xs)
    (ha : q.sl.Allocated) (hord : Ordered (Before compare) xs) (hops : Allowed xs.length ops)
    {r : PQueue α × List (Popped α)} (hrun : run compare q ops = some r) :
    Roomy xs.length ops := by
  induction ops generalizing q xs r with
  | nil => trivial
  | cons op ops ih =>
    obtain ⟨⟨q₁,popped⟩,hstep,hrun'⟩ := Option.bind_eq_some_iff.mp hrun
    obtain ⟨more,hrest,-⟩ : ∃ more, run compare q₁ ops = some more ∧ _ :=
      Option.bind_eq_some_iff.mp hrun'
    cases op with
    | add item fresh =>
      obtain ⟨q₂,hadd,hstep⟩ := Option.bind_eq_some_iff.mp hstep
      cases hstep
      obtain ⟨ha₁,hlt⟩ := add_allocated ha hadd
      rw [h.used] at hlt
      obtain ⟨q₂,zs,hadd',h₁,hperm₁,hord₁⟩ := add_holds hc h hord hlt fresh item
      cases hadd.symm.trans hadd'
      have hlen : zs.length = xs.length+1 := hperm₁.length_eq
      exact ⟨hlt,hlen ▸ ih h₁ ha₁ hord₁ (hlen ▸ hops) hrest⟩
    | pop =>
      obtain ⟨q₂,zs,top,hstep₂,h₁,hord₁,hperm₁,-⟩ := step_pop hc h hord hops.1
      obtain ⟨rfl,-⟩ := Prod.mk.inj (Option.some.inj (hstep.symm.trans hstep₂))
      obtain ⟨⟨q₂,top'⟩,hpop,hstep⟩ := Option.bind_eq_some_iff.mp hstep
      obtain ⟨rfl,-⟩ := Prod.mk.inj (Option.some.inj hstep)
      have hlen : zs.length = xs.length-1 := by
        rw [← hperm₁.length_eq]
        rfl
      change Roomy (xs.length-1) ops
      exact hlen ▸ ih h₁ (ha.of_capacity_eq (pop_capacity hpop)) hord₁ (hlen ▸ hops.2) hrest

theorem drain_holds {n : ℕ} {q : PQueue α} {xs : List α} (h : q.sl.Holds xs)
    (hord : Ordered (Before compare) xs) (hn : xs.length = n) :
    ∃ q' popped, run compare q (List.replicate n .pop) = some (q',popped) ∧ q'.sl.Holds [] ∧
      (popped.map Popped.top).Pairwise (compare · · ≤ 0) ∧ (popped.map Popped.top).Perm xs := by
  induction n generalizing q xs with
  | zero =>
    obtain rfl := List.eq_nil_of_length_eq_zero hn
    exact ⟨q,[],rfl,h,.nil,.refl _⟩
  | succ n ih =>
    obtain ⟨q₁,zs,top,hpop,h₁,hord₁,hperm₁,hleast⟩ := step_pop hc h hord (by omega)
    have hlen : zs.length = n := by
      have := hperm₁.length_eq
      rw [List.length_cons] at this
      omega
    obtain ⟨q',popped,hrun,hold,hsorted,hperm⟩ := ih h₁ hord₁ hlen
    refine ⟨q',⟨xs,top⟩ :: popped,?_,hold,List.pairwise_cons.mpr ⟨fun item hmem => ?_,hsorted⟩,
      (hperm.cons top).trans hperm₁⟩
    · simp [List.replicate_succ,run,hpop,hrun]
    · exact hleast.2 item (hperm₁.subset (List.mem_cons_of_mem top (hperm.subset hmem)))

theorem run_adds (items : List (α × (ℕ → α))) {q : PQueue α} {xs : List α} (h : q.sl.Holds xs)
    (hord : Ordered (Before compare) xs) (hroom : Roomy xs.length (adds items)) : ∃ q' ys,
      run compare q (adds items) = some (q',[]) ∧ q'.sl.Holds ys ∧ Ordered (Before compare) ys ∧
        ys.Perm (items.map Prod.fst ++ xs) := by
  induction items generalizing q xs with
  | nil => exact ⟨q,xs,rfl,h,hord,.refl _⟩
  | cons head items ih =>
    obtain ⟨item,fresh⟩ := head
    obtain ⟨q₁,zs,hadd,h₁,hperm₁,hord₁⟩ := add_holds hc h hord hroom.1 fresh item
    have hlen : zs.length = xs.length+1 := hperm₁.length_eq
    obtain ⟨q',ys,hrun,hold,hord',hperm⟩ := ih h₁ hord₁ (hlen ▸ hroom.2)
    refine ⟨q',ys,?_,hold,hord',hperm.trans ((hperm₁.append_left _).trans List.perm_middle)⟩
    have hrun' : run compare q₁ (items.map fun i => .add i.1 i.2) = some (q',[]) := hrun
    simp [adds,run,step,hadd,hrun']

end Runs

omit [DecidableEq α] in
theorem ordered_nil : Ordered (Before compare) [] := fun i _ a b ha => by cases ha

theorem adds_roomy {compare : α → α → ℤ} (hc : Comparison compare) (null : α) (idx : α → ℤ)
    {items : List (α × (ℕ → α))} {r : PQueue α × List (Popped α)}
    (hrun : run compare (empty null idx) (adds items) = some r) : items.length ≤ 2^30 := by
  have hempty : (empty null idx).sl.Holds [] := Smartlist.holds_new null
  have hroom := run_roomy hc hempty (Smartlist.allocated_new null) (ordered_nil compare)
    (allowed_adds items _) hrun
  simpa using (roomy_adds_iff (Nat.zero_le _) items).mp hroom

/-- A run from the empty queue serves the items by their order if and only if there is room for
each of them, and items that are all added first come out sorted if and only if there are at most
2^30. -/
theorem run_serves_iff {compare : α → α → ℤ} (hc : Comparison compare) (null : α) (idx : α → ℤ) :
    (∀ ops : List (Op α), Allowed 0 ops → (Serves compare (empty null idx) ops ↔ Roomy 0 ops)) ∧
    ∀ items : List (α × (ℕ → α)), Sorts compare (empty null idx) items ↔ items.length ≤ 2^30 := by
  have hempty : (empty null idx).sl.Holds [] := Smartlist.holds_new null
  have halloc : (empty null idx).sl.Allocated := Smartlist.allocated_new null
  have hord := ordered_nil compare
  refine ⟨fun ops hops => ⟨?_,fun hroom => ?_⟩,fun items => ⟨?_,fun hlen => ?_⟩⟩
  · rintro ⟨q,popped,hrun,-⟩
    exact run_roomy hc hempty halloc hord hops hrun
  · obtain ⟨q,ys,popped,hrun,hold,-,hperm,hleast⟩ := run_holds hc hempty hord hops hroom
    refine ⟨q,popped,hrun,hleast,?_⟩
    rw [hold.items_eq]
    simpa using hperm
  · rintro ⟨q,popped,hrun,-⟩
    obtain ⟨r,hadds⟩ := run_of_append compare hrun
    exact adds_roomy hc null idx hadds
  · obtain ⟨q₁,ys,hadds,hold,hord₁,hperm₁⟩ := run_adds hc items hempty hord
      ((roomy_adds_iff (Nat.zero_le _) items).mpr (by simpa using hlen))
    rw [List.append_nil] at hperm₁
    have hlen : ys.length = items.length := by rw [hperm₁.length_eq,List.length_map]
    obtain ⟨q,popped,hpops,hold',hsorted,hperm⟩ := drain_holds hc hold hord₁ hlen
    exact ⟨q,popped,run_append compare hadds hpops,hold'.items_eq,hsorted,hperm.trans hperm₁⟩

/-- Two items, the greater one first. -/
theorem run_serves_two : Sorts difference (empty 0 fun _ => 0) [(5,id),(3,id)] :=
  ((run_serves_iff difference_comparison 0 fun _ => 0).2 [(5,id),(3,id)]).mpr (by decide)

/-- More than 2^30 items overflow the capacity. -/
theorem adds_overflow {compare : α → α → ℤ} (hc : Comparison compare) (null : α) (idx : α → ℤ)
    {items : List (α × (ℕ → α))} (hlen : 2^30 < items.length) :
    Allowed 0 (adds items) ∧ ¬ Serves compare (empty null idx) (adds items) ∧
      ¬ Sorts compare (empty null idx) items := by
  have hfull : ∀ r, run compare (empty null idx) (adds items) ≠ some r := fun r hrun =>
    Nat.not_lt.mpr (adds_roomy hc null idx hrun) hlen
  refine ⟨allowed_adds items 0,?_,?_⟩
  · rintro ⟨q,popped,hrun,-⟩
    exact hfull _ hrun
  · rintro ⟨q,popped,hrun,-⟩
    obtain ⟨r,hadds⟩ := run_of_append compare hrun
    exact hfull r hadds

/-- One item more than the last power of two. -/
def overfull : List (ℕ × (ℕ → ℕ)) := (List.range 1073741825).map fun n => (n,id)

theorem run_overfull : Comparison difference ∧ Allowed 0 (adds overfull) ∧
    ¬ Serves difference (empty 0 fun _ => 0) (adds overfull) ∧
    ¬ Sorts difference (empty 0 fun _ => 0) overfull := by
  have hlen : 2^30 < overfull.length := by
    rw [overfull,List.length_map,List.length_range]
    omega
  exact And.intro difference_comparison (adds_overflow difference_comparison 0 (fun _ => 0) hlen)

end PQueue

end WpaCliWrapper
