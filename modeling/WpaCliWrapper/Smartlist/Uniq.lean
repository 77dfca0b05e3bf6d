import WpaCliWrapper.Smartlist.MostFrequent

/-! One member of each class of a sorted smartlist is kept. The members that follow it are passed
to `free_fn` and deleted, and the others move up. -/
namespace WpaCliWrapper
namespace Smartlist
open PQueue (Comparison)
variable {α : Type}

/-- A call of `compare`, or of `free_fn`. -/
inductive UniqEvent (α : Type) where
  | compare (a b : α)
  | free (elt : α)

/-- The items that a call is given. -/
def UniqEvent.items : UniqEvent α → List α
  | .compare a b => [a,b]
  | .free elt => [elt]

def UniqEvent.freed : UniqEvent α → Option α
  | .compare _ _ => none
  | .free elt => some elt

section Loop
variable (compare : α → α → ℤ) (freeFn : Bool)

/-- The loop of `smartlist_uniq` from `i` on, for at most some rounds, and the calls that it makes.
After a deletion the index is stepped back. -/
def uniqLoop : ℕ → Smartlist α → ℕ → Option (Smartlist α × List (UniqEvent α))
  | 0, sl, i => if i < sl.numUsed then none else some (sl,[])
  | rounds+1, sl, i =>
    if i < sl.numUsed then do
      let a ← sl.get (i-1)
      let b ← sl.get i
      if compare a b = 0 then
        let freed := if freeFn then [.free b] else []
        let (sl',events) ← uniqLoop rounds (← sl.delKeeporder i) i
        return (sl',.compare a b :: (freed ++ events))
      else
        let (sl',events) ← uniqLoop rounds sl (i+1)
        return (sl',.compare a b :: events)
    else some (sl,[])

/-- `smartlist_uniq`. If there is no `free_fn`, nothing is freed. -/
def uniq (sl : Smartlist α) : Option (Smartlist α × List (UniqEvent α)) :=
  uniqLoop compare freeFn sl.numUsed sl 1

/-- `smartlist_uniq_strings`. -/
def uniqStrings (text : α → CText.CString) (sl : Smartlist α) :
    Option (Smartlist α × List (UniqEvent α)) := uniq (compareStringPtrs text) true sl

end Loop

section Classes
variable (compare : α → α → ℤ)

/-- The members that are, or are not, the first of their class, after some members. -/
def classMembers (first : Bool) (before : List α) : List α → List α
  | [] => []
  | x :: rest =>
    if before.all (compare · x ≠ 0) = first then
      x :: classMembers first (before ++ [x]) rest
    else classMembers first (before ++ [x]) rest

/-- The first member of each class, in order. -/
def firstMembers (xs : List α) : List α := classMembers compare true [] xs

/-- All other members, in order. -/
def otherMembers (xs : List α) : List α := classMembers compare false [] xs

variable {compare}

theorem classMembers_perm (before xs : List α) :
    (classMembers compare true before xs ++ classMembers compare false before xs).Perm xs := by
  induction xs generalizing before with
  | nil => exact .nil
  | cons x rest ih =>
    rw [classMembers,classMembers]
    cases before.all (compare · x ≠ 0) with
    | true => exact (ih _).cons x
    | false =>
      refine List.perm_middle.trans ?_
      exact (ih _).cons x

/-- First members are strictly increasing, and greater than all members before them. -/
theorem classMembers_increasing {before xs : List α}
    (hsorted : (before ++ xs).Pairwise (compare · · ≤ 0)) :
    (classMembers compare true before xs).Pairwise (compare · · < 0) ∧
      ∀ x ∈ classMembers compare true before xs, ∀ b ∈ before, compare b x < 0 := by
  induction xs generalizing before with
  | nil => exact ⟨.nil,fun x hx => by cases hx⟩
  | cons x rest ih =>
    have hle : ∀ b ∈ before, compare b x ≤ 0 := fun b hb =>
      (List.pairwise_append.mp hsorted).2.2 b hb x List.mem_cons_self
    rw [← List.singleton_append,← List.append_assoc] at hsorted
    obtain ⟨hrest,hbefore⟩ := ih hsorted
    have hkeep : ∀ y ∈ classMembers compare true (before ++ [x]) rest, ∀ b ∈ before,
        compare b y < 0 := fun y hy b hb => hbefore y hy b (List.mem_append_left _ hb)
    rw [classMembers]
    split
    · rename_i hall
      have hnew : ∀ b ∈ before, compare b x ≠ 0 := by simpa using hall
      refine ⟨List.pairwise_cons.mpr ⟨fun y hy => ?_,hrest⟩,fun y hy b hb => ?_⟩
      · exact hbefore y hy x (List.mem_append_right _ (List.mem_singleton_self x))
      · cases hy with
        | head => exact lt_of_le_of_ne (hle b hb) (hnew b hb)
        | tail _ hy => exact hkeep y hy b hb
    · exact ⟨hrest,hkeep⟩

end Classes

/-- An item is given to no call after it was freed. -/
def Untouched (events : List (UniqEvent α)) : Prop :=
  events.Pairwise fun e e' => ∀ x, e.freed = some x → x ∉ e'.items

theorem untouched_of_no_free {events : List (UniqEvent α)}
    (h : events.filterMap UniqEvent.freed = []) : Untouched events := by
  refine List.pairwise_of_forall_mem_list fun e he e' _ x hx => ?_
  rw [List.filterMap_eq_nil_iff] at h
  cases (h e he).symm.trans hx

/-- The first member of each class is left, and `free_fn`, if there is one, is called once for each
other member, for no kept one, and the freed ones are not used again. -/
def KeepsFirst (compare : α → α → ℤ) (freeFn : Bool) (sl : Smartlist α) (xs : List α) : Prop :=
  ∃ sl' events, uniq compare freeFn sl = some (sl',events) ∧
    sl'.items = firstMembers compare xs ∧
    (firstMembers compare xs).Pairwise (compare · · < 0) ∧ Untouched events ∧
    (events.filterMap UniqEvent.freed).Nodup ∧
    ∀ x, (x ∈ events.filterMap UniqEvent.freed ↔ freeFn = true ∧ x ∈ otherMembers compare xs) ∧
      (x ∈ events.filterMap UniqEvent.freed → x ∉ firstMembers compare xs)

/-- What is known of the calls that are made from one kept member on: what they free, and that
they are given only this member and those after it. -/
structure Calls (k : α) (rest freed : List α) (events : List (UniqEvent α)) : Prop where
  freed : events.filterMap UniqEvent.freed = freed
  within : ∀ e ∈ events, ∀ x ∈ e.items, x = k ∨ x ∈ rest
  untouched : (k :: rest).Nodup → Untouched events

section Calls
variable {k x : α} {rest freed : List α} {events : List (UniqEvent α)}

theorem Calls.nil (k : α) (rest : List α) : Calls k rest [] [] :=
  ⟨rfl,fun e he => (by cases he),fun _ => .nil⟩

theorem within_compare {y : α} (hy : y ∈ (UniqEvent.compare k x).items) :
    y = k ∨ y ∈ x :: rest := by
  rcases List.mem_cons.mp hy with rfl | hy
  · exact .inl rfl
  · exact .inr (List.mem_singleton.mp hy ▸ List.mem_cons_self)

/-- The next member is kept, and the calls go on from it. -/
theorem Calls.keep (h : Calls x rest freed events) :
    Calls k (x :: rest) freed (.compare k x :: events) := by
  refine ⟨h.freed,fun e he y hy => ?_,fun hnodup => ?_⟩
  · rcases List.mem_cons.mp he with rfl | he
    · exact within_compare hy
    · exact .inr (List.mem_cons.mpr (h.within e he y hy))
  · refine List.pairwise_cons.mpr ⟨fun e _ y hy => ?_,h.untouched (List.nodup_cons.mp hnodup).2⟩
    cases hy

/-- The next member is deleted without a call. -/
theorem Calls.delete (h : Calls k rest freed events) :
    Calls k (x :: rest) freed (.compare k x :: events) := by
  refine ⟨h.freed,fun e he y hy => ?_,fun hnodup => ?_⟩
  · rcases List.mem_cons.mp he with rfl | he
    · exact within_compare hy
    · exact (h.within e he y hy).imp_right (List.mem_cons_of_mem x)
  · have hsub : (k :: rest).Sublist (k :: x :: rest) := (List.sublist_cons_self x rest).cons_cons k
    refine List.pairwise_cons.mpr ⟨fun e _ y hy => ?_,h.untouched (hnodup.sublist hsub)⟩
    cases hy

/-- The next member is freed, and no later call is given it. -/
theorem Calls.free (h : Calls k rest freed events) :
    Calls k (x :: rest) (x :: freed) (.compare k x :: .free x :: events) := by
  have hdelete := h.delete (x := x)
  refine ⟨?_,fun e he y hy => ?_,fun hnodup => ?_⟩
  · have hsome : (UniqEvent.free x).freed = some x := rfl
    rw [List.filterMap_cons_none rfl,List.filterMap_cons_some hsome,h.freed]
  · rcases List.mem_cons.mp he with rfl | he
    · exact within_compare hy
    rcases List.mem_cons.mp he with rfl | he
    · exact .inr (List.mem_singleton.mp hy ▸ List.mem_cons_self)
    · exact hdelete.within e (List.mem_cons_of_mem _ he) y hy
  · obtain ⟨hcompare,hrest⟩ := List.pairwise_cons.mp (hdelete.untouched hnodup)
    refine List.pairwise_cons.mpr ⟨fun e _ y hy => (by cases hy),List.pairwise_cons.mpr ⟨?_,hrest⟩⟩
    rintro e he y hy hmem
    obtain rfl := Option.some.inj hy
    simp only [List.nodup_cons,List.mem_cons,not_or] at hnodup
    obtain ⟨⟨hne,-⟩,hx,-⟩ := hnodup
    obtain rfl | hmem := h.within e he x hmem
    · exact hne rfl
    · exact hx hmem

end Calls

section Run
variable {compare : α → α → ℤ} (hc : Comparison compare) (freeFn : Bool)
include hc

/-- The last member that was kept tells whether the next one is the first of its class. -/
theorem first_iff {before rest : List α} {k x : α} (hk : k ∈ before)
    (hgreatest : ∀ b ∈ before, compare b k ≤ 0)
    (hsorted : (before ++ x :: rest).Pairwise (compare · · ≤ 0)) :
    before.all (compare · x ≠ 0) = true ↔ compare k x ≠ 0 := by
  have hkx := (List.pairwise_append.mp hsorted).2.2 k hk x List.mem_cons_self
  simp only [List.all_eq_true,decide_eq_true_eq]
  refine ⟨fun hall => hall k hk,fun hne b hb => ?_⟩
  have hlt := hc.lt_of_le_of_lt (hgreatest b hb) (lt_of_le_of_ne hkx hne)
  exact hlt.ne

/-- The loop at the member that was kept last, with the rest of the list behind it. -/
theorem uniqLoop_holds (rounds : ℕ) {sl : Smartlist α} {before kept rest : List α} {k : α}
    (h : sl.Holds (kept ++ k :: rest)) (hrounds : rest.length ≤ rounds) (hk : k ∈ before)
    (hgreatest : ∀ b ∈ before, compare b k ≤ 0)
    (hsorted : (before ++ rest).Pairwise (compare · · ≤ 0)) :
    ∃ sl' events, uniqLoop compare freeFn rounds sl (kept.length+1) = some (sl',events) ∧
      sl'.Holds (kept ++ k :: classMembers compare true before rest) ∧
      Calls k rest (if freeFn then classMembers compare false before rest else []) events := by
  induction rounds generalizing sl before kept rest k with
  | zero =>
    obtain rfl := List.eq_nil_of_length_eq_zero (Nat.le_zero.mp hrounds)
    refine ⟨sl,[],if_neg (by simp [h.used]),h,?_⟩
    rw [classMembers,ite_self]
    exact Calls.nil k []
  | succ rounds ih =>
    cases rest with
    | nil =>
      refine ⟨sl,[],if_neg (by simp [h.used]),h,?_⟩
      rw [classMembers,ite_self]
      exact Calls.nil k []
    | cons x rest =>
      obtain ⟨-,hgeta⟩ := h.get_next
      obtain ⟨hlt,hgetb⟩ := (show sl.Holds (kept ++ [k] ++ x :: rest) by simpa using h).get_next
      rw [List.length_append,List.length_singleton] at hlt hgetb
      have hfirst := first_iff hc hk hgreatest hsorted
      have hkx := (List.pairwise_append.mp hsorted).2.2 k hk x List.mem_cons_self
      have hbefore := fun b hb => (List.pairwise_append.mp hsorted).2.2 b hb x List.mem_cons_self
      rw [← List.singleton_append,← List.append_assoc] at hsorted
      rw [List.length_cons,Nat.add_le_add_iff_right] at hrounds
      rw [uniqLoop,if_pos hlt,Nat.add_sub_cancel,hgeta,hgetb,classMembers,classMembers]
      by_cases hequal : compare k x = 0
      -- the next member is deleted, and the rest moves up
      · have hall : before.all (compare · x ≠ 0) = false :=
          Bool.not_eq_true _ ▸ fun hall => hfirst.mp hall hequal
        obtain ⟨sl₁,hdel,h₁,-⟩ := h.delKeeporder (show kept.length+1 < _ by simp)
        have herase : (kept ++ k :: x :: rest).eraseIdx (kept.length+1) = kept ++ k :: rest := by
          simpa using eraseIdx_middle (kept ++ [k]) x rest
        rw [herase] at h₁
        have hgreatest' : ∀ b ∈ before ++ [x], compare b k ≤ 0 :=
          List.forall_mem_append.mpr
            ⟨hgreatest,List.forall_mem_singleton.mpr (hc.equal_comm.mp hequal).le⟩
        obtain ⟨sl',events,hrun,hold,hcalls⟩ := ih h₁ hrounds (List.mem_append_left [x] hk)
          hgreatest' hsorted
        simp only [hall,Bool.false_eq_true,if_false,if_true,hdel,hrun,hequal,
          Option.bind_eq_bind,Option.bind_some,Option.pure_def]
        refine ⟨sl',_,rfl,hold,?_⟩
        cases freeFn with
        | true => exact hcalls.free
        | false => exact hcalls.delete
      · have hall := hfirst.mpr hequal
        have hgreatest' : ∀ b ∈ before ++ [x], compare b x ≤ 0 :=
          List.forall_mem_append.mpr ⟨hbefore,List.forall_mem_singleton.mpr (hc.refl x).le⟩
        obtain ⟨sl',events,hrun,hold,hcalls⟩ := ih
          (show sl.Holds (kept ++ [k] ++ x :: rest) by simpa using h) hrounds
          (show x ∈ before ++ [x] by simp) hgreatest' hsorted
        rw [List.length_append,List.length_singleton] at hrun
        simp only [hall,if_true,hrun,hequal,if_false,Option.bind_eq_bind,Option.bind_some,
          Option.pure_def]
        exact ⟨sl',_,rfl,by simpa using hold,hcalls.keep⟩

/-- The list then holds the first member of each class, and the entries that were deleted were
freed, in order. Of pointers that differ, none is used after it was freed. -/
theorem uniq_frees {sl : Smartlist α} {xs : List α} (h : sl.Holds xs)
    (hsorted : xs.Pairwise (compare · · ≤ 0)) :
    ∃ sl' events, uniq compare freeFn sl = some (sl',events) ∧
      sl'.items = firstMembers compare xs ∧
      (firstMembers compare xs).Pairwise (compare · · < 0) ∧
      events.filterMap UniqEvent.freed = (if freeFn then otherMembers compare xs else []) ∧
      (xs.Nodup → Untouched events) := by
  have hincreasing : (firstMembers compare xs).Pairwise (compare · · < 0) :=
    (classMembers_increasing (show ([] ++ xs).Pairwise _ from hsorted)).1
  cases xs with
  | nil =>
    refine ⟨sl,[],?_,h.items_eq,hincreasing,?_,fun _ => .nil⟩
    · rw [uniq,h.used]
      exact if_neg (by simp [h.used])
    · cases freeFn <;> rfl
  | cons k rest =>
    obtain ⟨sl',events,hrun,hold,hcalls⟩ := uniqLoop_holds hc freeFn sl.numUsed
      (show sl.Holds ([] ++ k :: rest) from h) (by rw [h.used]; exact Nat.le_succ _)
      (List.mem_singleton_self k) (fun b hb => by rw [List.mem_singleton.mp hb,hc.refl]) hsorted
    exact ⟨sl',events,hrun,hold.items_eq,hincreasing,hcalls.freed,hcalls.untouched⟩

/-- One member of each class is kept and the others are freed as they should be, if and only if no
pointer is in the list twice or nothing is freed. -/
theorem uniq_keeps_first_iff {sl : Smartlist α} {xs : List α} (h : sl.Holds xs)
    (hsorted : xs.Pairwise (compare · · ≤ 0)) :
    KeepsFirst compare freeFn sl xs ↔ (freeFn = true → xs.Nodup) := by
  obtain ⟨sl',events,hrun,hitems,hincreasing,hfreed,huntouched⟩ := uniq_frees hc freeFn h hsorted
  have hperm : (firstMembers compare xs ++ otherMembers compare xs).Perm xs :=
    classMembers_perm [] xs
  constructor
  · rintro ⟨sl₁,events₁,hrun₁,-,-,-,hnodup,hfrees⟩ rfl
    cases hrun.symm.trans hrun₁
    rw [hfreed,if_pos rfl] at hnodup hfrees
    have hfirst : (firstMembers compare xs).Nodup :=
      hincreasing.imp fun hlt heq => by
        rw [heq,hc.refl] at hlt
        exact lt_irrefl 0 hlt
    refine hperm.nodup_iff.mp (List.nodup_append.mpr ⟨hfirst,hnodup,fun x hx y hy hxy => ?_⟩)
    exact (hfrees y).2 hy (hxy ▸ hx)
  · intro hdistinct
    cases freeFn with
    | false =>
      rw [if_neg Bool.false_ne_true] at hfreed
      refine ⟨sl',events,hrun,hitems,hincreasing,untouched_of_no_free hfreed,?_,fun x => ?_⟩
      · rw [hfreed]
        exact .nil
      · rw [hfreed]
        simp
    | true =>
      rw [if_pos rfl] at hfreed
      have hnodup := hdistinct rfl
      obtain ⟨-,hother,hdisjoint⟩ := List.nodup_append.mp (hperm.nodup_iff.mpr hnodup)
      refine ⟨sl',events,hrun,hitems,hincreasing,huntouched hnodup,?_,fun x => ?_⟩
      · rwa [hfreed]
      · rw [hfreed]
        exact ⟨by simp,fun hx hmem => hdisjoint x hmem x hx rfl⟩

end Run

/-- Three equal words and two other ones. -/
theorem uniqStrings_three :
    KeepsFirst (compareStringPtrs word) true ⟨[1,2,3,4,5],5,5⟩ [1,2,3,4,5] :=
  (uniq_keeps_first_iff (compareStringPtrs_comparison word) true
    ⟨⟨[],rfl⟩,rfl,rfl,by decide⟩ (by decide)).mpr fun _ => by decide

/-- A pointer that is in the list twice is kept and freed. -/
theorem uniq_frees_kept : Comparison difference ∧ [7,7].Pairwise (difference · · ≤ 0) ∧
    ¬ KeepsFirst difference true ⟨[7,7],2,2⟩ [7,7] := by
  refine ⟨PQueue.difference_comparison,by decide,?_⟩
  rintro ⟨sl',events,hrun,-,-,-,-,hfrees⟩
  cases hrun
  exact (hfrees 7).2 (by decide) (by decide)

end Smartlist

end WpaCliWrapper
