import WpaCliWrapper.Smartlist.Operations

/-! Runs of operations on any number of smartlists, beside the same operations on lists. -/
namespace WpaCliWrapper
namespace Smartlist
variable {α : Type*}

/-- All smartlists, each known by its position. -/
abbrev Store (α : Type*) := List (Smartlist α)

/-- `smartlist_add_all`. Where both arguments are one smartlist, its block was moved before it is
read. The cells that are written are never among those that are read. -/
def addAll (fresh : ℕ → α) (store : Store α) (l s : ℕ) : Option (Store α) := do
  let sl ← store[l]?
  let s2 ← store[s]?
  let newSize := sl.numUsed+s2.numUsed
  let sl ← ensureCapacity fresh sl newSize
  let store := store.set l sl
  let s2 ← store[s]?
  let sl ← sl.copy sl.numUsed s2.list 0 s2.numUsed
  return store.set l { sl with numUsed := newSize }

inductive Op (α : Type*) where
  | new
  | add (l : ℕ) (element : α)
  | addAll (l s : ℕ)
  | insert (l idx : ℕ) (val : α)
  | del (l idx : ℕ)
  | delKeeporder (l idx : ℕ)
  | popLast (l : ℕ)
  | reverse (l : ℕ)
  | swap (l idx1 idx2 : ℕ)
  | clear (l : ℕ)
  | remove (l : ℕ) (element : α)

section Run
variable [DecidableEq α] (null : α)

/-- An operation on one of the smartlists. -/
def onList (store : Store α) (l : ℕ) (f : Smartlist α → Option (Smartlist α)) :
    Option (Store α) := do
  let sl ← f (← store[l]?)
  return store.set l sl

def step (fresh : ℕ → α) (store : Store α) : Op α → Option (Store α)
  | .new => some (store ++ [Smartlist.new null])
  | .add l element => onList store l fun sl => sl.add fresh element
  | .addAll l s => addAll fresh store l s
  | .insert l idx val => onList store l fun sl => sl.insert fresh idx val
  | .del l idx => onList store l fun sl => sl.del idx
  | .delKeeporder l idx => onList store l fun sl => sl.delKeeporder idx
  | .popLast l => onList store l fun sl => (sl.popLast null).map Prod.fst
  | .reverse l => onList store l Smartlist.reverse
  | .swap l idx1 idx2 => onList store l fun sl => sl.swap idx1 idx2
  | .clear l => onList store l fun sl => some sl.clear
  | .remove l element => onList store l fun sl => sl.remove null element

/-- A run from some smartlists on. Each operation finds its own contents in fresh memory. -/
def run (store : Store α) : List (Op α × (ℕ → α)) → Option (Store α)
  | [] => some store
  | (op,fresh) :: ops => do run (← step null fresh store op) ops

end Run

/-- What the operations do to lists. Some of them may leave the elements in another order. -/
inductive Reference [DecidableEq α] (null : α) (lists : List (List α)) :
    Op α → List (List α) → Prop where
  | new : Reference null lists .new (lists ++ [[]])
  | add {l xs} (element : α) : lists[l]? = some xs →
      Reference null lists (.add l element) (lists.set l (xs ++ [element]))
  | addAll {l s xs ys} : lists[l]? = some xs → lists[s]? = some ys →
      Reference null lists (.addAll l s) (lists.set l (xs ++ ys))
  | insert {l idx xs} (val : α) : lists[l]? = some xs → idx ≤ xs.length →
      Reference null lists (.insert l idx val) (lists.set l (xs.insertIdx idx val))
  | del {l idx xs ys} : lists[l]? = some xs → idx < xs.length → ys.Perm (xs.eraseIdx idx) →
      Reference null lists (.del l idx) (lists.set l ys)
  | delKeeporder {l idx xs} : lists[l]? = some xs → idx < xs.length →
      Reference null lists (.delKeeporder l idx) (lists.set l (xs.eraseIdx idx))
  | popLast {l xs} : lists[l]? = some xs →
      Reference null lists (.popLast l) (lists.set l xs.dropLast)
  | reverse {l xs} : lists[l]? = some xs →
      Reference null lists (.reverse l) (lists.set l xs.reverse)
  | swap {l i j xs a b} : lists[l]? = some xs → xs[i]? = some a → xs[j]? = some b →
      Reference null lists (.swap l i j) (lists.set l ((xs.set i b).set j a))
  | clear {l xs} : lists[l]? = some xs → Reference null lists (.clear l) (lists.set l [])
  | remove {l xs ys} (element : α) : lists[l]? = some xs → element ≠ null →
      ys.Perm (xs.filter (· ≠ element)) →
      Reference null lists (.remove l element) (lists.set l ys)

inductive ReferenceRun [DecidableEq α] (null : α) :
    List (List α) → List (Op α) → List (List α) → Prop where
  | nil {lists} : ReferenceRun null lists [] lists
  | cons {lists lists' lists'' op ops} : Reference null lists op lists' →
      ReferenceRun null lists' ops lists'' → ReferenceRun null lists (op :: ops) lists''

/-- All smartlists are well formed, and their capacities are far from the end of `int`. -/
structure Sound (store : Store α) : Prop where
  holds : ∀ sl ∈ store, sl.Holds sl.items
  bounded : ∀ sl ∈ store, sl.capacity < 2^30

section Steps
variable {store : Store α}

theorem Sound.nil : Sound ([] : Store α) := ⟨by simp,by simp⟩

theorem Sound.getElem (hs : Sound store) {l : ℕ} {xs : List α}
    (hl : (store.map items)[l]? = some xs) : ∃ sl, store[l]? = some sl ∧ sl ∈ store ∧ sl.Holds xs := by
  rw [List.getElem?_map] at hl
  obtain ⟨sl,hsl,rfl⟩ := Option.map_eq_some_iff.mp hl
  have hmem := List.mem_of_getElem? hsl
  exact ⟨sl,hsl,hmem,hs.holds sl hmem⟩

theorem Sound.set (hs : Sound store) {sl : Smartlist α} {ys : List α} (l : ℕ) (h : sl.Holds ys)
    (hcap : sl.capacity < 2^30) :
    Sound (List.set store l sl) ∧ (List.set store l sl).map items = (store.map items).set l ys := by
  refine ⟨⟨fun sl' hmem => ?_,fun sl' hmem => ?_⟩,by rw [List.map_set,h.items_eq]⟩
  · rcases List.mem_or_eq_of_mem_set hmem with hmem | rfl
    · exact hs.holds sl' hmem
    · exact h.items_eq ▸ h
  · rcases List.mem_or_eq_of_mem_set hmem with hmem | rfl
    · exact hs.bounded sl' hmem
    · exact hcap

theorem Sound.new (hs : Sound store) (null : α) : Sound (store ++ [Smartlist.new null]) := by
  constructor
  · intro sl hmem
    rcases List.mem_append.mp hmem with hmem | hmem
    · exact hs.holds sl hmem
    · cases List.mem_singleton.mp hmem
      exact holds_new null
  · intro sl hmem
    rcases List.mem_append.mp hmem with hmem | hmem
    · exact hs.bounded sl hmem
    · cases List.mem_singleton.mp hmem
      exact Nat.lt_of_sub_eq_succ rfl

/-- What an operation yields for one smartlist, the step yields for all. -/
theorem Sound.onList (hs : Sound store) {l : ℕ} {sl : Smartlist α} (hl : store[l]? = some sl)
    {f : Smartlist α → Option (Smartlist α)} {ys : List α} (hf : Yields (f sl) sl ys)
    (hlen : ys.length < 2^29) : ∃ store', onList store l f = some store' ∧ Sound store' ∧
      store'.map items = (store.map items).set l ys := by
  obtain ⟨sl',hf,hold,hcap⟩ := hf
  have hbound := hs.bounded sl (List.mem_of_getElem? hl)
  obtain ⟨hsound,hitems⟩ := hs.set l hold (by omega)
  exact ⟨List.set store l sl',by simp [Smartlist.onList,hl,hf],hsound,hitems⟩

theorem mem_set_self {lists : List (List α)} {l : ℕ} {xs : List α} (hl : lists[l]? = some xs)
    (ys : List α) : ys ∈ lists.set l ys :=
  List.mem_set (List.getElem?_eq_some_iff.mp hl).1 ys

theorem copy_holds {sl s2 : Smartlist α} {xs ys : List α} (h : sl.Holds xs) (h₂ : s2.Holds ys)
    (hroom : xs.length+ys.length ≤ sl.capacity) : ∃ sl',
      sl.copy sl.numUsed s2.list 0 s2.numUsed = some sl' ∧
        Holds { sl' with numUsed := sl.numUsed+s2.numUsed } (xs ++ ys) ∧
          sl'.capacity = sl.capacity := by
  have hitems : s2.list.take s2.numUsed = ys := h₂.items_eq
  have hxs : sl.list.take sl.numUsed = xs := h.items_eq
  have hle := h₂.length_le
  have hused := h.used
  have hused₂ := h₂.used
  have hblock := h.block
  have hcopy : copyCells sl.list sl.numUsed s2.list 0 s2.numUsed =
      some (xs ++ ys ++ sl.list.drop (sl.numUsed+s2.numUsed)) := by
    rw [copyCells,if_pos (by omega),List.drop_zero,hitems,hxs]
  refine ⟨{ sl with list := xs ++ ys ++ sl.list.drop (sl.numUsed+s2.numUsed) },?_,
    ⟨⟨_,rfl⟩,?_,?_,h.positive⟩,rfl⟩
  · rw [copy,hcopy]
    rfl
  · simp [hused,hused₂]
  · simp
    omega

theorem Sound.addAll (hs : Sound store) (fresh : ℕ → α) {l s : ℕ} {xs ys : List α}
    (hl : (store.map items)[l]? = some xs) (hy : (store.map items)[s]? = some ys)
    (hlen : (xs ++ ys).length < 2^29) : ∃ store', addAll fresh store l s = some store' ∧
      Sound store' ∧ store'.map items = (store.map items).set l (xs ++ ys) := by
  obtain ⟨sl,hsl,hmem,h⟩ := hs.getElem hl
  obtain ⟨s2,hs2,hmem₂,h₂⟩ := hs.getElem hy
  rw [List.length_append,← h.used,← h₂.used] at hlen
  obtain ⟨sl₁,he,h₁,hsize,hmax⟩ := h.ensureCapacity fresh
    (show sl.numUsed+s2.numUsed ≤ 2^30 by omega)
  have hbound := hs.bounded sl hmem
  obtain ⟨hsound,hitems⟩ := hs.set l h₁ (by omega)
  -- the second argument as it is after the first one has grown
  obtain ⟨s3,hs3,-,h₃⟩ := hsound.getElem (show ((List.set store l sl₁).map items)[s]? = some ys by
    rw [hitems,List.getElem?_set]
    split
    · rename_i hls
      cases hls
      rw [if_pos (List.getElem?_eq_some_iff.mp hl).1,← hl,hy]
    · exact hy)
  have hused : s3.numUsed = s2.numUsed := h₃.used.trans h₂.used.symm
  have hroom : xs.length+ys.length ≤ sl₁.capacity := by rw [← h.used,← h₂.used]; exact hsize
  obtain ⟨sl₄,hcopy,h₄,hcap⟩ := copy_holds h₁ h₃ hroom
  have hused₁ : sl₁.numUsed = sl.numUsed := h₁.used.trans h.used.symm
  rw [hused₁,hused] at h₄
  obtain ⟨hsound',hitems'⟩ := hsound.set l h₄ (by change sl₄.capacity < 2^30; omega)
  refine ⟨_,?_,hsound',?_⟩
  · simp [Smartlist.addAll,hsl,hs2,he,hs3,hcopy]
  · rw [hitems',hitems,List.set_set]

end Steps

section Runs
variable [DecidableEq α] (null : α)

/-- The lists allow the operation, and stay below the length up to which `int` is enough. -/
def Allowed (lists : List (List α)) (op : Op α) : Prop :=
  ∃ lists', Reference null lists op lists' ∧ ∀ xs ∈ lists', xs.length < 2^29

/-- Every operation is allowed where the run has come to. -/
def AllowedRun (store : Store α) : List (Op α × (ℕ → α)) → Prop
  | [] => True
  | (op,fresh) :: ops => Allowed null (store.map items) op ∧
      ∀ store', step null fresh store op = some store' → AllowedRun store' ops

variable {null}

theorem step_refines {store : Store α} (hs : Sound store) {op : Op α}
    (ha : Allowed null (store.map items) op) (fresh : ℕ → α) :
    ∃ store', step null fresh store op = some store' ∧ Sound store' ∧
      Reference null (store.map items) op (store'.map items) := by
  obtain ⟨lists',href,hlen⟩ := ha
  -- the steps that change one list only
  have hone : ∀ {l : ℕ} {xs ys : List α} {f : Smartlist α → Option (Smartlist α)},
      (store.map items)[l]? = some xs → (∀ sl : Smartlist α, sl.Holds xs → Yields (f sl) sl ys) →
      ys.length < 2^29 → Reference null (store.map items) op ((store.map items).set l ys) →
      ∃ store', onList store l f = some store' ∧ Sound store' ∧
        Reference null (store.map items) op (store'.map items) := by
    intro l xs ys f hl hf hy href
    obtain ⟨sl,hsl,-,h⟩ := hs.getElem hl
    obtain ⟨store',hstep,hsound,hitems⟩ := hs.onList hsl (hf sl h) hy
    exact ⟨store',hstep,hsound,hitems ▸ href⟩
  have hsame : ∀ {l : ℕ} {xs ys zs : List α}, (store.map items)[l]? = some xs →
      (∀ zs ∈ (store.map items).set l ys, zs.length < 2^29) → zs.length = ys.length →
      zs.length < 2^29 :=
    fun hl hlen heq => heq ▸ hlen _ (mem_set_self hl _)
  cases href with
  | new =>
    refine ⟨_,rfl,hs.new null,?_⟩
    rw [List.map_append]
    exact .new
  | @add _ xs element hl =>
    have hy : (xs ++ [element]).length < 2^29 := hsame hl hlen rfl
    rw [List.length_append] at hy
    exact hone hl (fun sl h => h.add fresh (by omega) element) (hsame hl hlen rfl) (.add element hl)
  | addAll hl hy =>
    obtain ⟨store',hstep,hsound,hitems⟩ := hs.addAll fresh hl hy (hsame hl hlen rfl)
    exact ⟨store',hstep,hsound,hitems ▸ .addAll hl hy⟩
  | @insert _ _ xs val hl hidx =>
    have hy : (xs.insertIdx _ val).length < 2^29 := hsame hl hlen rfl
    rw [List.length_insertIdx_of_le_length hidx] at hy
    exact hone hl (fun sl h => h.insert fresh hidx (by omega) val) (hsame hl hlen rfl)
      (.insert val hl hidx)
  | del hl hidx hperm =>
    obtain ⟨sl,hsl,-,h⟩ := hs.getElem hl
    obtain ⟨ys,hys,hdel⟩ := h.del hidx
    have hy := hsame hl hlen (hys.trans hperm.symm).length_eq
    obtain ⟨store',hstep,hsound,hitems⟩ := hs.onList (f := fun sl => sl.del _) hsl hdel hy
    exact ⟨store',hstep,hsound,hitems ▸ .del hl hidx hys⟩
  | delKeeporder hl hidx =>
    exact hone hl (fun sl h => h.delKeeporder hidx) (hsame hl hlen rfl) (.delKeeporder hl hidx)
  | popLast hl =>
    refine hone hl (fun sl h => ?_) (hsame hl hlen rfl) (.popLast hl)
    obtain ⟨sl',hpop,hold,hcap⟩ := h.popLast null
    exact ⟨sl',by rw [hpop]; rfl,hold,hcap.trans_le (le_max_left _ _)⟩
  | reverse hl => exact hone hl (fun sl h => h.reverse) (hsame hl hlen rfl) (.reverse hl)
  | swap hl hi hj =>
    exact hone hl (fun sl h => h.swap hi hj) (hsame hl hlen rfl) (.swap hl hi hj)
  | clear hl =>
    exact hone hl (fun sl h => ⟨_,rfl,h.clear,le_max_left _ _⟩) (hsame hl hlen rfl) (.clear hl)
  | remove element hl hnull hperm =>
    obtain ⟨sl,hsl,-,h⟩ := hs.getElem hl
    obtain ⟨ys,hys,hremove⟩ := h.remove hnull
    have hy := hsame hl hlen (hys.trans hperm.symm).length_eq
    obtain ⟨store',hstep,hsound,hitems⟩ := hs.onList (f := fun sl => sl.remove null _) hsl hremove hy
    exact ⟨store',hstep,hsound,hitems ▸ .remove element hl hnull hys⟩

theorem run_refines_from {ops : List (Op α × (ℕ → α))} {store : Store α} (hs : Sound store)
    (ha : AllowedRun null store ops) : ∃ store', run null store ops = some store' ∧
      Sound store' ∧ ReferenceRun null (store.map items) (ops.map Prod.fst) (store'.map items) := by
  induction ops generalizing store with
  | nil => exact ⟨store,rfl,hs,.nil⟩
  | cons head ops ih =>
    obtain ⟨op,fresh⟩ := head
    obtain ⟨store₁,hstep,hs₁,href⟩ := step_refines hs ha.1 fresh
    obtain ⟨store',hrun,hs',href'⟩ := ih hs₁ (ha.2 store₁ hstep)
    exact ⟨store',by rw [run,hstep]; exact hrun,hs',.cons href href'⟩

end Runs

/-- Every run of allowed operations ends without a fault, and the pointers in use are what the
same operations on lists lead to. -/
theorem run_refines [DecidableEq α] (null : α) (ops : List (Op α × (ℕ → α)))
    (ha : AllowedRun null [] ops) : ∃ store, run null [] ops = some store ∧
      ReferenceRun null [] (ops.map Prod.fst) (store.map items) ∧
      ∀ sl ∈ store, sl.numUsed ≤ sl.capacity ∧ sl.list.length = sl.capacity ∧
        sl.capacity < 2^30 := by
  obtain ⟨store,hrun,hs,href⟩ := run_refines_from Sound.nil ha
  refine ⟨store,hrun,href,fun sl hmem => ?_⟩
  exact ⟨(hs.holds sl hmem).numUsed_le,(hs.holds sl hmem).block,hs.bounded sl hmem⟩

/-- A smartlist that is appended to itself. -/
theorem run_refines_doubled : ∃ store, run 0 []
      [(.new,id),(.add 0 7,id),(.addAll 0 0,id),(.remove 0 7,id)] = some store ∧
      ReferenceRun 0 [] [.new,.add 0 7,.addAll 0 0,.remove 0 7] (store.map items) ∧
      ∀ sl ∈ store, sl.numUsed ≤ sl.capacity ∧ sl.list.length = sl.capacity ∧
        sl.capacity < 2^30 := by
  refine run_refines 0 _ ⟨⟨_,.new,by decide⟩,?_⟩
  intro store₁ h₁
  cases h₁
  refine ⟨⟨_,.add 7 rfl,by decide⟩,?_⟩
  intro store₂ h₂
  cases h₂
  refine ⟨⟨_,.addAll rfl rfl,by decide⟩,?_⟩
  intro store₃ h₃
  cases h₃
  exact ⟨⟨_,.remove 7 rfl (by decide) (.refl _),by decide⟩,fun _ _ => trivial⟩

end Smartlist

end WpaCliWrapper
