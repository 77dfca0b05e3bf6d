import WpaCliWrapper.Smartlist.Operations

/-! Smartlists as multisets: what two of them have in common, and what only one of them has. -/
namespace WpaCliWrapper
namespace Smartlist
variable {α : Type} [DecidableEq α]

section Loops
variable (null : α)

def containsLoop (sl : Smartlist α) (element : α) : ℕ → ℕ → Option Bool
  | 0, i => if i < sl.numUsed then none else some false
  | rounds+1, i =>
    if i < sl.numUsed then do
      if (← sl.get i) = element then return true
      else containsLoop sl element rounds (i+1)
    else some false

def contains (sl : Smartlist α) (element : α) : Option Bool :=
  containsLoop sl element sl.numUsed 0

def overlapLoop (sl1 sl2 : Smartlist α) : ℕ → ℕ → Option Bool
  | 0, i => if i < sl2.numUsed then none else some false
  | rounds+1, i =>
    if i < sl2.numUsed then do
      if ← contains sl1 (← sl2.get i) then return true
      else overlapLoop sl1 sl2 rounds (i+1)
    else some false

def overlap (sl1 sl2 : Smartlist α) : Option Bool := overlapLoop sl1 sl2 sl2.numUsed 0

/-- The loop of `smartlist_intersect` from `i` on, for at most some rounds. -/
def intersectLoop (sl2 : Smartlist α) : ℕ → Smartlist α → ℕ → Option (Smartlist α)
  | 0, sl1, i => if i < sl1.numUsed then none else some sl1
  | rounds+1, sl1, i =>
    if i < sl1.numUsed then do
      if !(← contains sl2 (← sl1.get i)) then
        let last ← sl1.get (sl1.numUsed-1)
        let sl1' ← set { sl1 with numUsed := sl1.numUsed-1 } i last
        intersectLoop sl2 rounds sl1' i
      else intersectLoop sl2 rounds sl1 (i+1)
    else some sl1

def intersect (sl1 sl2 : Smartlist α) : Option (Smartlist α) :=
  intersectLoop sl2 sl1.numUsed sl1 0

def subtractLoop (sl2 : Smartlist α) : ℕ → Smartlist α → ℕ → Option (Smartlist α)
  | 0, sl1, i => if i < sl2.numUsed then none else some sl1
  | rounds+1, sl1, i =>
    if i < sl2.numUsed then do
      let sl1' ← sl1.remove null (← sl2.get i)
      subtractLoop sl2 rounds sl1' (i+1)
    else some sl1

def subtract (sl1 sl2 : Smartlist α) : Option (Smartlist α) :=
  subtractLoop null sl2 sl2.numUsed sl1 0

end Loops

section Contents

/-- The search that `smartlist_contains` and `smartlist_overlap` share. -/
def anyLoop (p : α → Bool) (sl : Smartlist α) : ℕ → ℕ → Option Bool
  | 0, i => if i < sl.numUsed then none else some false
  | rounds+1, i =>
    if i < sl.numUsed then do
      if p (← sl.get i) then return true
      else anyLoop p sl rounds (i+1)
    else some false

variable {sl : Smartlist α}

omit [DecidableEq α] in
theorem anyLoop_eq (p : α → Bool) (rounds : ℕ) {before rest : List α}
    (h : sl.Holds (before ++ rest)) (hrounds : rest.length ≤ rounds) :
    anyLoop p sl rounds before.length = some (rest.any p) := by
  induction rounds generalizing before rest with
  | zero =>
    obtain rfl := List.eq_nil_of_length_eq_zero (Nat.le_zero.mp hrounds)
    exact if_neg (by simp [h.used])
  | succ rounds ih =>
    rw [anyLoop]
    cases rest with
    | nil => exact if_neg (by simp [h.used])
    | cons x rest =>
      obtain ⟨hlt,hget⟩ := h.get_next
      rw [List.length_cons,Nat.add_le_add_iff_right] at hrounds
      have hrest := ih (show sl.Holds (before ++ [x] ++ rest) by simpa using h) hrounds
      rw [List.length_append,List.length_singleton] at hrest
      rw [if_pos hlt,hget,List.any_cons]
      simp only [Option.bind_eq_bind,Option.bind_some]
      cases p x with
      | true => rfl
      | false => exact hrest

theorem containsLoop_eq_anyLoop (element : α) (rounds i : ℕ) :
    containsLoop sl element rounds i = anyLoop (· == element) sl rounds i := by
  induction rounds generalizing i with
  | zero => rfl
  | succ rounds ih => simp only [containsLoop,anyLoop,ih,beq_iff_eq]

theorem Holds.contains {xs : List α} (h : sl.Holds xs) (element : α) :
    sl.contains element = some (xs.contains element) := by
  rw [Smartlist.contains,containsLoop_eq_anyLoop,← List.any_beq']
  exact anyLoop_eq (· == element) _ (show sl.Holds ([] ++ xs) from h) h.used.ge

theorem overlapLoop_eq_anyLoop {sl1 : Smartlist α} {xs : List α} (h₁ : sl1.Holds xs)
    (rounds i : ℕ) : overlapLoop sl1 sl rounds i = anyLoop xs.contains sl rounds i := by
  induction rounds generalizing i with
  | zero => rfl
  | succ rounds ih =>
    simp only [overlapLoop,anyLoop,ih,h₁.contains,Option.bind_eq_bind,Option.bind_some]

theorem Holds.overlap {sl1 : Smartlist α} {xs ys : List α} (h₁ : sl1.Holds xs) (h : sl.Holds ys) :
    sl1.overlap sl = some (ys.any xs.contains) := by
  rw [Smartlist.overlap,overlapLoop_eq_anyLoop h₁]
  exact anyLoop_eq xs.contains _ (show sl.Holds ([] ++ ys) from h) h.used.ge

end Contents

section Results

theorem intersectLoop_eq_dropLoop {sl2 : Smartlist α} {ys : List α} (h₂ : sl2.Holds ys) (rounds : ℕ)
    (sl1 : Smartlist α) (i : ℕ) :
    intersectLoop sl2 rounds sl1 i = dropLoop (!ys.contains ·) rounds sl1 i := by
  induction rounds generalizing sl1 i with
  | zero => rfl
  | succ rounds ih =>
    simp only [intersectLoop,dropLoop,ih,h₂.contains,Option.bind_eq_bind,Option.bind_some]

theorem subtracted_null {y null : α} (hy : y = null) (before : List α) (x : α) :
    (x = null || !(before ++ [y]).contains x) = (x = null || !before.contains x) := by
  by_cases hx : x = null <;> simp [hx,hy]

theorem subtracted_next {y null : α} (hy : y ≠ null) (before : List α) (x : α) :
    (x ≠ y && (x = null || !before.contains x)) =
      (x = null || !(before ++ [y]).contains x) := by
  by_cases hx : x = null
  · simp [hx,Ne.symm hy]
  · by_cases hxy : x = y <;> simp [hx,hxy,hy]

/-- A member that is in both lists is removed, unless it is the null pointer. -/
theorem subtractLoop_holds (null : α) (rounds : ℕ) {sl1 sl2 : Smartlist α}
    {xs before rest zs : List α} (h₁ : sl1.Holds zs) (h₂ : sl2.Holds (before ++ rest))
    (hrounds : rest.length ≤ rounds)
    (hzs : zs.Perm (xs.filter fun x => x = null || !before.contains x)) :
    ∃ sl' zs', subtractLoop null sl2 rounds sl1 before.length = some sl' ∧ sl'.Holds zs' ∧
      zs'.Perm (xs.filter fun x => x = null || !(before ++ rest).contains x) := by
  induction rounds generalizing sl1 before rest zs with
  | zero =>
    obtain rfl := List.eq_nil_of_length_eq_zero (Nat.le_zero.mp hrounds)
    exact ⟨sl1,zs,if_neg (by simp [h₂.used]),h₁,by rwa [List.append_nil]⟩
  | succ rounds ih =>
    rw [subtractLoop]
    cases rest with
    | nil => exact ⟨sl1,zs,if_neg (by simp [h₂.used]),h₁,by rwa [List.append_nil]⟩
    | cons y rest =>
      obtain ⟨hlt,hget⟩ := h₂.get_next
      rw [List.length_cons,Nat.add_le_add_iff_right] at hrounds
      obtain ⟨sl₁,zs₁,hremove,hold,hperm⟩ : ∃ sl₁ zs₁, sl1.remove null y = some sl₁ ∧
          sl₁.Holds zs₁ ∧
            zs₁.Perm (xs.filter fun x => x = null || !(before ++ [y]).contains x) := by
        by_cases hy : y = null
        · refine ⟨sl1,zs,if_pos hy,h₁,?_⟩
          rw [List.filter_congr fun x _ => subtracted_null hy before x]
          exact hzs
        · obtain ⟨zs₁,hperm,sl₁,hremove,hold,-⟩ := @Holds.remove _ _ y _ _ h₁ null hy
          refine ⟨sl₁,zs₁,hremove,hold,hperm.trans ((hzs.filter _).trans ?_)⟩
          rw [List.filter_filter,List.filter_congr fun x _ => subtracted_next hy before x]
      have hsplit : before ++ y :: rest = before ++ [y] ++ rest := by simp
      rw [hsplit] at h₂ ⊢
      have hrest := ih hold h₂ hrounds hperm
      rw [List.length_append,List.length_singleton] at hrest
      rw [if_pos hlt,hget]
      simp only [Option.bind_eq_bind,Option.bind_some,hremove]
      exact hrest

variable {sl1 sl2 : Smartlist α} {xs ys : List α} (h₁ : sl1.Holds xs) (h₂ : sl2.Holds ys)
include h₁ h₂

theorem Holds.intersect : ∃ zs, zs.Perm (xs.filter (ys.contains ·)) ∧
    Yields (sl1.intersect sl2) sl1 zs := by
  obtain ⟨zs,sl',hzs,hr,hold,hcap,-⟩ := dropLoop_holds (!ys.contains ·) sl1.numUsed (i := 0) h₁
    (by rw [h₁.used]; omega) (show ∀ x ∈ xs.take 0, _ by simp)
  rw [← intersectLoop_eq_dropLoop h₂] at hr
  simp only [Bool.not_not] at hzs
  exact ⟨zs,hzs,sl',hr,hold,hcap.trans_le (le_max_left _ _)⟩

theorem Holds.subtract (null : α) : ∃ sl' zs, subtract null sl1 sl2 = some sl' ∧ sl'.Holds zs ∧
    zs.Perm (xs.filter fun x => x = null || !ys.contains x) :=
  subtractLoop_holds null _ h₁ (show sl2.Holds ([] ++ ys) from h₂) h₂.used.ge
    (show xs.Perm _ by simp)

/-- The intersection and the difference are those of multisets, and divide the list, if and only
if the null pointer is not in both lists. -/
theorem intersect_subtract_iff (null : α) :
    (∃ inter sub, sl1.intersect sl2 = some inter ∧ subtract null sl1 sl2 = some sub ∧
      (∀ x, inter.items.count x = if x ∈ ys then xs.count x else 0) ∧
      (∀ x, sub.items.count x = if x ∈ ys then 0 else xs.count x) ∧
      (inter.items ++ sub.items).Perm xs ∧ sub.overlap sl2 = some false) ↔
      ¬ (null ∈ xs ∧ null ∈ ys) := by
  obtain ⟨zs,hzs,inter,hinter,hold,-⟩ := h₁.intersect h₂
  obtain ⟨sub,zs',hsub,hold',hzs'⟩ := h₁.subtract h₂ null
  constructor
  · rintro ⟨-,sub₁,-,hsub₁,-,hcount,-⟩ ⟨hx,hy⟩
    obtain rfl := Option.some.inj (hsub.symm.trans hsub₁)
    have hnull := hcount null
    rw [if_pos hy,hold'.items_eq,hzs'.count_eq,List.count_filter (by simp)] at hnull
    exact absurd hx (List.count_eq_zero.mp hnull)
  · intro hno
    have hcount : ∀ x, zs.count x = if x ∈ ys then xs.count x else 0 := by
      intro x
      rw [hzs.count_eq]
      split
      · rename_i hx
        exact List.count_filter (by simpa using hx)
      · rename_i hx
        refine List.count_eq_zero.mpr fun hmem => hx ?_
        simpa using (List.mem_filter.mp hmem).2
    have hcount' : ∀ x, zs'.count x = if x ∈ ys then 0 else xs.count x := by
      intro x
      rw [hzs'.count_eq]
      split
      · rename_i hx
        refine List.count_eq_zero.mpr fun hmem => ?_
        obtain ⟨hxs,hkeep⟩ := List.mem_filter.mp hmem
        obtain rfl : x = null := by simpa [hx] using hkeep
        exact hno ⟨hxs,hx⟩
      · rename_i hx
        exact List.count_filter (by simp [hx])
    rw [hold.items_eq.symm] at hcount
    rw [hold'.items_eq.symm] at hcount'
    refine ⟨inter,sub,hinter,hsub,hcount,hcount',?_,?_⟩
    · refine List.perm_iff_count.mpr fun x => ?_
      rw [List.count_append,hcount,hcount']
      split <;> omega
    · rw [hold'.overlap h₂,Option.some_inj,List.any_eq_false]
      intro y hy hmem
      have hzero := hcount' y
      rw [if_pos hy,hold'.items_eq] at hzero
      exact List.count_eq_zero.mp hzero (by simpa using hmem)

end Results

theorem intersect_subtract_repeated : ∃ inter sub,
    intersect ⟨[1,2,1,0],4,4⟩ ⟨[1,3,3],3,3⟩ = some inter ∧
      subtract 0 ⟨[1,2,1,0],4,4⟩ ⟨[1,3,3],3,3⟩ = some sub ∧
      (∀ x, inter.items.count x = if x ∈ [1,3,3] then [1,2,1,0].count x else 0) ∧
      (∀ x, sub.items.count x = if x ∈ [1,3,3] then 0 else [1,2,1,0].count x) ∧
      (inter.items ++ sub.items).Perm [1,2,1,0] ∧
        sub.overlap ⟨[1,3,3],3,3⟩ = some false :=
  (intersect_subtract_iff ⟨⟨[],rfl⟩,rfl,rfl,by decide⟩ ⟨⟨[],rfl⟩,rfl,rfl,by decide⟩ 0).mpr (by decide)

/-- The null pointer stays although the other list has it too. -/
theorem subtract_keeps_null : ¬ ∃ inter sub,
    intersect ⟨[0],1,1⟩ ⟨[0],1,1⟩ = some inter ∧ subtract 0 ⟨[0],1,1⟩ ⟨[0],1,1⟩ = some sub ∧
      (∀ x, inter.items.count x = if x ∈ [0] then [0].count x else 0) ∧
      (∀ x, sub.items.count x = if x ∈ [0] then 0 else [0].count x) ∧
      (inter.items ++ sub.items).Perm [0] ∧ sub.overlap ⟨[0],1,1⟩ = some false := by
  rintro ⟨inter,sub,-,hsub,-,hcount,-⟩
  have hsame : subtract 0 ⟨[0],1,1⟩ ⟨[0],1,1⟩ = some (⟨[0],1,1⟩ : Smartlist ℕ) := by decide
  obtain rfl := Option.some.inj (hsame.symm.trans hsub)
  exact absurd (hcount 0) (by decide)

end Smartlist

end WpaCliWrapper
