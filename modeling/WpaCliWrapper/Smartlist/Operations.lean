import WpaCliWrapper.Smartlist.Basic
import Mathlib.Tactic.Ring

/-! What each operation on smartlists does to the elements, whatever fresh memory holds. -/
namespace WpaCliWrapper
namespace Smartlist
variable {α : Type*}

/-- The operation ends without a fault, and the smartlist then holds these elements. It grows at
most to twice their number. -/
def Yields (r : Option (Smartlist α)) (sl : Smartlist α) (ys : List α) : Prop :=
  ∃ sl', r = some sl' ∧ sl'.Holds ys ∧ sl'.capacity ≤ max sl.capacity (2*ys.length)

section Growth

theorem checked_eq {n : ℕ} (h : n ≤ 2147483647) : checked n = .ok (n : ℤ) :=
  if_pos ⟨by omega,by omega⟩

theorem higherLoop_double (int : ℤ → Except IntFault ℤ) {size c : ℕ} (h : c < size) (rounds : ℕ) :
    higherLoop int size (rounds+1) c =
      int (c*2 : ℕ) >>= fun c' => higherLoop int size rounds c' := by
  rw [higherLoop,if_pos (by omega),Nat.cast_mul]
  rfl

theorem set_capacity {sl sl' : Smartlist α} {i : ℕ} {x : α} (h : sl.set i x = some sl') :
    sl'.capacity = sl.capacity := by
  rw [Smartlist.set] at h
  split at h
  · cases h
    rfl
  · cases h

/-- Up to the last power of two no product leaves `int` before the capacity is enough. -/
theorem higherLoop_enough {size : ℕ} (hsize : size ≤ 2^30) (rounds : ℕ) {c : ℕ} (hpos : 0 < c)
    (henough : size ≤ c*2^rounds) : ∃ c' : ℕ, higherLoop checked size rounds c = .ok (c' : ℤ) ∧
      size ≤ c' ∧ c' ≤ max c (2*size-2) ∧ ∃ k, c' = c*2^k := by
  induction rounds generalizing c with
  | zero =>
    rw [Nat.pow_zero,Nat.mul_one] at henough
    exact ⟨c,if_neg (by omega),henough,le_max_left _ _,0,by simp⟩
  | succ rounds ih =>
    by_cases h : size ≤ c
    · exact ⟨c,if_neg (by omega),h,le_max_left _ _,0,by simp⟩
    obtain ⟨c',hloop,hle,hmax,k,hk⟩ := ih (show 0 < c*2 by omega)
      (by rwa [Nat.mul_assoc,← Nat.pow_succ'])
    refine ⟨c',?_,hle,by omega,k+1,by rw [hk,Nat.mul_assoc,← Nat.pow_succ']⟩
    rw [higherLoop_double checked (by omega),checked_eq (by omega)]
    exact hloop

theorem realloc_append (fresh : ℕ → α) (block : List α) {n : ℕ} (hn : block.length ≤ n) :
    ∃ rest, realloc fresh block n = block ++ rest := by
  refine ⟨(realloc fresh block n).drop block.length,?_⟩
  conv_lhs => rw [← List.take_append_drop block.length (realloc fresh block n)]
  congr 1
  apply List.ext_getElem
  · simp [realloc,hn]
  · intro i hi hi'
    simp [realloc,hi']

theorem Holds.ensureCapacity {sl : Smartlist α} {xs : List α} (h : sl.Holds xs) (fresh : ℕ → α)
    {size : ℕ} (hsize : size ≤ 2^30) : ∃ sl', ensureCapacity fresh sl size = some sl' ∧
      sl'.Holds xs ∧ size ≤ sl'.capacity ∧ sl'.capacity ≤ max sl.capacity (2*size) := by
  have hint : ¬ 2147483647 < size := by omega
  by_cases hc : sl.capacity < size
  · obtain ⟨c,hloop,hle,hmax,-⟩ := higherLoop_enough hsize size h.positive
      (Nat.le_trans (le_of_lt Nat.lt_two_pow_self) (Nat.le_mul_of_pos_left _ h.positive))
    refine ⟨{ sl with capacity := c, list := realloc fresh sl.list c },?_,?_,hle,
      hmax.trans (max_le_max le_rfl (Nat.sub_le _ _))⟩
    · rw [Smartlist.ensureCapacity,if_neg hint,if_pos hc,hloop]
      rfl
    · obtain ⟨rest,hlist⟩ := h.cells
      obtain ⟨rest',hrealloc⟩ := realloc_append fresh sl.list
        (h.block.trans_le (hc.le.trans hle))
      refine ⟨⟨rest ++ rest',?_⟩,h.used,?_,Nat.lt_of_lt_of_le h.positive (hc.le.trans hle)⟩
      · rw [← List.append_assoc,← hlist]
        exact hrealloc
      · simp [realloc]
  · refine ⟨sl,?_,h,by omega,le_max_left _ _⟩
    rw [Smartlist.ensureCapacity,if_neg hint,if_neg hc]

end Growth

section Single
variable {sl : Smartlist α} {xs : List α} (h : sl.Holds xs) (null : α) (fresh : ℕ → α)
include h

theorem Holds.add (hlen : xs.length < 2^30) (x : α) : Yields (add fresh sl x) sl (xs ++ [x]) := by
  obtain ⟨sl₁,he,h₁,hsize,hmax⟩ := h.ensureCapacity fresh
    (show sl.numUsed+1 ≤ 2^30 by rw [h.used]; exact hlen)
  obtain ⟨sl₂,hset,h₂,hcap⟩ := h₁.push (by have := h.used; omega) x
  refine ⟨_,?_,h₂,?_⟩
  · simp [Smartlist.add,he,hset]
  · change sl₂.capacity ≤ _
    rw [hcap,List.length_append,← h.used]
    exact hmax

theorem Holds.popLast : ∃ sl', popLast null sl = some (sl',xs.getLast?.getD null) ∧
    sl'.Holds xs.dropLast ∧ sl'.capacity = sl.capacity := by
  rw [Smartlist.popLast]
  rcases List.eq_nil_or_concat xs with rfl | ⟨ys,y,rfl⟩
  · rw [h.used]
    exact ⟨sl,rfl,h,rfl⟩
  · have hlen : sl.numUsed = ys.length+1 := by simp [h.used]
    have hget : sl.get ys.length = some y := by
      rw [h.get_eq (by simp)]
      simp
    rw [hlen]
    refine ⟨{ sl with numUsed := ys.length },?_,?_,rfl⟩
    · simp [hget]
    · have htake := h.take (n := ys.length) (by simp)
      simpa using htake

theorem Holds.exchange {i j : ℕ} {a b : α} (hi : xs[i]? = some a) (hj : xs[j]? = some b) :
    ∃ sl', sl.exchange i j = some sl' ∧ sl'.Holds ((xs.set i b).set j a) ∧
      sl'.capacity = sl.capacity := by
  have hi' := (List.getElem?_eq_some_iff.mp hi).1
  have hj' := (List.getElem?_eq_some_iff.mp hj).1
  obtain ⟨sl₁,h₁,hold₁,hcap₁⟩ := h.set_eq hi' b
  obtain ⟨sl₂,h₂,hold₂,hcap₂⟩ := hold₁.set_eq (by simpa using hj') a
  refine ⟨sl₂,?_,hold₂,hcap₂.trans hcap₁⟩
  simp [Smartlist.exchange,h.get_eq hi',h.get_eq hj',hi,hj,h₁,h₂]

theorem Holds.swap {i j : ℕ} {a b : α} (hi : xs[i]? = some a) (hj : xs[j]? = some b) :
    Yields (sl.swap i j) sl ((xs.set i b).set j a) := by
  by_cases hij : i = j
  · cases hij
    cases hi.symm.trans hj
    obtain ⟨hlt,rfl⟩ := List.getElem?_eq_some_iff.mp hi
    refine ⟨sl,if_pos rfl,?_,le_max_left _ _⟩
    rw [List.set_set,List.set_getElem_self]
    exact h
  · obtain ⟨sl',he,hold,hcap⟩ := h.exchange hi hj
    exact ⟨sl',(if_neg hij).trans he,hold,hcap.trans_le (le_max_left _ _)⟩

end Single

section Reverse

theorem reverse_of_length_le {m : List α} (h : m.length ≤ 1) : m.reverse = m := by
  match m, h with
  | [], _ => rfl
  | [_], _ => rfl

/-- The two ends that were reversed grow towards each other. -/
theorem reverseLoop_holds (rounds : ℕ) {sl : Smartlist α} {a m b : List α}
    (h : sl.Holds (a ++ m ++ b)) (hrounds : m.length ≤ 2*rounds+1) :
    Yields (reverseLoop rounds sl a.length (a.length+m.length-1)) sl (a ++ m.reverse ++ b) := by
  induction rounds generalizing sl a m b with
  | zero =>
    rw [reverse_of_length_le (by omega)]
    exact ⟨sl,if_neg (by omega),h,le_max_left _ _⟩
  | succ rounds ih =>
    rw [reverseLoop]
    by_cases hlt : a.length < a.length+m.length-1
    · obtain ⟨x,m,y,rfl⟩ : ∃ x m' y, m = x :: (m' ++ [y]) := by
        cases m with
        | nil =>
          rw [List.length_nil] at hlt
          omega
        | cons x m =>
          rcases List.eq_nil_or_concat m with rfl | ⟨m,y,rfl⟩
          · simp at hlt
          · exact ⟨x,m,y,by simp⟩
      rw [if_pos hlt]
      have hj : a.length+(x :: (m ++ [y])).length-1 = a.length+(m.length+1) := by simp
      rw [hj]
      obtain ⟨sl₁,he,hold,hcap⟩ := h.exchange (i := a.length) (j := a.length+(m.length+1))
        (a := x) (b := y) (by simp) (by simp)
      have hxs : ((a ++ x :: (m ++ [y]) ++ b).set a.length y).set (a.length+(m.length+1)) x =
          (a ++ [y]) ++ m ++ (x :: b) := by simp
      rw [hxs] at hold
      obtain ⟨sl₂,hr,hold₂,hmax⟩ := ih hold (by simp at hrounds; omega)
      refine ⟨sl₂,?_,?_,?_⟩
      · have hidx : (a ++ [y]).length+m.length-1 = a.length+(m.length+1)-1 := by simp
        rw [hidx,List.length_append] at hr
        rw [he]
        exact hr
      · simpa using hold₂
      · rw [hcap] at hmax
        refine hmax.trans (le_of_eq ?_)
        simp
    · rw [if_neg hlt,reverse_of_length_le (by omega)]
      exact ⟨sl,rfl,h,le_max_left _ _⟩

theorem Holds.reverse {sl : Smartlist α} {xs : List α} (h : sl.Holds xs) :
    Yields sl.reverse sl xs.reverse := by
  have hold : sl.Holds ([] ++ xs ++ []) := by simpa using h
  have hr := reverseLoop_holds sl.numUsed hold (by rw [h.used]; omega)
  simpa [Smartlist.reverse,h.used] using hr

end Reverse

section Positions

theorem exists_append_cons {xs : List α} {idx : ℕ} (hidx : idx < xs.length) :
    ∃ a x b, xs = a ++ x :: b ∧ a.length = idx :=
  ⟨xs.take idx,xs[idx],xs.drop (idx+1),by
    rw [List.getElem_cons_drop,List.take_append_drop],List.length_take_of_le hidx.le⟩

theorem eraseIdx_middle (a : List α) (x : α) (b : List α) :
    (a ++ x :: b).eraseIdx a.length = a ++ b := by
  induction a with
  | nil => rfl
  | cons c a ih => simp [ih]

theorem insertIdx_middle (a : List α) (x : α) (b : List α) :
    (a ++ b).insertIdx a.length x = a ++ x :: b := by
  induction a with
  | nil => rfl
  | cons c a ih => simp [ih]

/-- The last pointer in the place of another one: a permutation of those that are left. -/
theorem set_last_perm {xs : List α} {idx : ℕ} {last : α} (hidx : idx < xs.length)
    (hlast : xs[xs.length-1]? = some last) :
    ((xs.set idx last).take (xs.length-1)).Perm (xs.eraseIdx idx) := by
  obtain ⟨a,x,b,rfl,rfl⟩ := exists_append_cons hidx
  rcases List.eq_nil_or_concat b with rfl | ⟨b,y,rfl⟩
  · simp [eraseIdx_middle]
  · have hlen : (a ++ x :: b.concat y).length-1 = a.length+(b.length+1) := by simp
    rw [hlen] at hlast ⊢
    obtain rfl : y = last := by simpa using hlast
    have htake : ((a ++ x :: b.concat y).set a.length y).take (a.length+(b.length+1)) =
        a ++ y :: b := by
      rw [List.set_append_right _ _ (le_refl _),Nat.sub_self,List.take_length_add_append]
      simp
    rw [htake,eraseIdx_middle]
    simpa using ((List.perm_append_singleton y b).symm.append_left a)

variable {sl : Smartlist α} {xs : List α} (h : sl.Holds xs)
include h

theorem Holds.del {idx : ℕ} (hidx : idx < xs.length) :
    ∃ ys, ys.Perm (xs.eraseIdx idx) ∧ Yields (sl.del idx) sl ys := by
  obtain ⟨n,hn⟩ : ∃ n, sl.numUsed = n+1 := ⟨sl.numUsed-1,by have := h.used; omega⟩
  have hlen : xs.length-1 = n := by have := h.used; omega
  have hlt : n < xs.length := by have := h.used; omega
  have hlast : xs[xs.length-1]? = some xs[n] := by
    rw [hlen]
    exact List.getElem?_eq_getElem _
  obtain ⟨sl',hset,hold,hcap⟩ := h.set_take hidx (n := n) (by omega) xs[n]
  refine ⟨_,set_last_perm hidx hlast,sl',?_,hlen ▸ hold,hcap.trans_le (le_max_left _ _)⟩
  have hget : sl.get n = some xs[n] := by
    rw [h.get_eq (by omega)]
    exact List.getElem?_eq_getElem _
  rw [Smartlist.del,hn]
  simp [hget,hset]

theorem Holds.delKeeporder {idx : ℕ} (hidx : idx < xs.length) :
    Yields (sl.delKeeporder idx) sl (xs.eraseIdx idx) := by
  obtain ⟨a,x,b,rfl,rfl⟩ := exists_append_cons hidx
  obtain ⟨rest,hlist⟩ := h.cells
  have hn : sl.numUsed = a.length+b.length+1 := by simp [h.used]; omega
  rw [Smartlist.delKeeporder,hn,eraseIdx_middle]
  by_cases hb : a.length < a.length+b.length
  · have hcopy : copyCells sl.list a.length sl.list (a.length+1) (a.length+b.length-a.length) =
        some (a ++ b ++ sl.list.drop (a.length+b.length)) := by
      have hdrop : (sl.list.drop (a.length+1)).take b.length = b := by
        rw [hlist,List.append_assoc,List.drop_length_add_append]
        simp
      have htake : sl.list.take a.length = a := by
        rw [hlist,List.append_assoc]
        exact List.take_left
      have hlen := h.length_le
      rw [List.length_append,List.length_cons] at hlen
      rw [copyCells,if_pos (by omega),Nat.add_sub_cancel_left,hdrop,htake]
    refine ⟨⟨a ++ b ++ sl.list.drop (a.length+b.length),a.length+b.length,sl.capacity⟩,?_,
      ⟨⟨_,rfl⟩,?_,?_,h.positive⟩,le_max_left _ _⟩
    · simp only [if_pos hb,copy,hcopy]
      rfl
    · simp
    · have hlen := h.length_le
      simp at hlen ⊢
      rw [← h.block]
      omega
  · refine ⟨_,if_neg hb,?_,le_max_left _ _⟩
    obtain rfl : b = [] := List.eq_nil_of_length_eq_zero (by omega)
    simpa using h.take (n := a.length) (by simp)

theorem Holds.insert (fresh : ℕ → α) {idx : ℕ} (hidx : idx ≤ xs.length)
    (hbound : xs.length < 2^30) (x : α) :
    Yields (insert fresh sl idx x) sl (xs.insertIdx idx x) := by
  by_cases hend : idx = sl.numUsed
  · rw [Smartlist.insert,if_pos hend,hend,h.used]
    simpa using h.add fresh hbound x
  obtain ⟨sl₁,he,h₁,hsize,hmax⟩ := h.ensureCapacity fresh
    (show sl.numUsed+1 ≤ 2^30 by rw [h.used]; exact hbound)
  have hlt : idx < xs.length := by have := h.used; omega
  obtain ⟨a,y,b,rfl,rfl⟩ := exists_append_cons hlt
  obtain ⟨rest,hlist⟩ := h₁.cells
  have hused := h₁.used
  have hused' := h.used
  simp only [List.length_append,List.length_cons] at hused hused'
  obtain ⟨r,rest,rfl⟩ : ∃ r rest', rest = r :: rest' := by
    cases rest with
    | nil =>
      have hblock := h₁.block
      simp only [hlist,List.length_append,List.length_cons,List.length_nil] at hblock
      omega
    | cons r rest => exact ⟨r,rest,rfl⟩
  have hcopy : copyCells sl₁.list (a.length+1) sl₁.list a.length (b.length+1) =
      some (a ++ y :: y :: b ++ rest) := by
    have hdrop : (sl₁.list.drop a.length).take (b.length+1) = y :: b := by
      rw [hlist,List.append_assoc,List.drop_left]
      simp
    have htake : sl₁.list.take (a.length+1) = a ++ [y] := by
      rw [hlist,List.append_assoc,List.take_length_add_append]
      simp
    have hrest : sl₁.list.drop (a.length+1+(b.length+1)) = rest := by
      rw [hlist,List.append_assoc,Nat.add_assoc,List.drop_length_add_append]
      simp [Nat.add_comm 1]
    rw [copyCells,if_pos (by simp [hlist]; omega),hdrop,htake,hrest]
    simp
  refine ⟨{ sl₁ with numUsed := sl₁.numUsed+1, list := a ++ x :: y :: b ++ rest },?_,
    ⟨⟨rest,?_⟩,?_,?_,h₁.positive⟩,?_⟩
  · simp [Smartlist.insert,hend,he,copy,hcopy,Smartlist.set,hused]
  · rw [insertIdx_middle]
  · rw [insertIdx_middle,List.length_append,List.length_cons,List.length_cons]
    change sl₁.numUsed+1 = _
    omega
  · have hblock := h₁.block
    simp [hlist] at hblock ⊢
    omega
  · rw [List.length_insertIdx_of_le_length hidx,← h.used]
    exact hmax

end Positions

section Dropping
variable (drops : α → Bool)

/-- The loop in which the last pointer takes the place of one that is dropped, and is looked at
next. -/
def dropLoop : ℕ → Smartlist α → ℕ → Option (Smartlist α)
  | 0, sl, i => if i < sl.numUsed then none else some sl
  | rounds+1, sl, i =>
    if i < sl.numUsed then do
      if drops (← sl.get i) then
        let last ← sl.get (sl.numUsed-1)
        let sl' ← set { sl with numUsed := sl.numUsed-1 } i last
        dropLoop rounds sl' i
      else dropLoop rounds sl (i+1)
    else some sl

variable {drops}

theorem filter_eraseIdx {xs : List α} {i : ℕ} {x : α} (hi : xs[i]? = some x) (hx : drops x) :
    (xs.eraseIdx i).filter (!drops ·) = xs.filter (!drops ·) := by
  obtain ⟨hlt,hget⟩ := List.getElem?_eq_some_iff.mp hi
  obtain ⟨a,y,b,rfl,rfl⟩ := exists_append_cons hlt
  obtain rfl : y = x := by simpa using hi
  simp [eraseIdx_middle,hx]

theorem filter_passed {xs : List α} {i : ℕ} (hi : xs.length ≤ i)
    (hpassed : ∀ x ∈ xs.take i, drops x = false) : xs.filter (!drops ·) = xs := by
  rw [List.take_of_length_le hi] at hpassed
  exact List.filter_eq_self.mpr (by simpa using hpassed)

/-- Nothing before `i` is dropped, and each round either passes one more pointer or has one
pointer less to look at. Pointers before the first that is dropped stay where they are. -/
theorem dropLoop_holds (drops : α → Bool) (rounds : ℕ) {i : ℕ} {sl : Smartlist α} {xs : List α}
    (h : sl.Holds xs) (hrounds : xs.length ≤ i+rounds) (hpassed : ∀ x ∈ xs.take i, drops x = false) :
    ∃ ys sl', ys.Perm (xs.filter (!drops ·)) ∧ dropLoop drops rounds sl i = some sl' ∧
      sl'.Holds ys ∧ sl'.capacity = sl.capacity ∧
        ∀ k, (∀ x ∈ xs.take k, drops x = false) → ys.take k = xs.take k := by
  induction rounds generalizing i sl xs with
  | zero =>
    have hi : ¬ i < sl.numUsed := by have := h.used; omega
    exact ⟨xs,sl,by rw [filter_passed hrounds hpassed],if_neg hi,h,rfl,fun _ _ => rfl⟩
  | succ rounds ih =>
    rw [dropLoop]
    by_cases hlt : i < xs.length
    · have hget : sl.get i = some xs[i] := (h.get_eq hlt).trans (List.getElem?_eq_getElem hlt)
      rw [if_pos (h.used ▸ hlt),hget]
      by_cases hx : drops xs[i] = true
      · have hn : xs.length-1 < xs.length := by omega
        obtain ⟨last,hlast⟩ : ∃ last, xs[xs.length-1]? = some last :=
          ⟨_,List.getElem?_eq_getElem hn⟩
        obtain ⟨sl₁,hset,h₁,hcap⟩ := h.set_take hlt hn.le last
        have hperm := (set_last_perm hlt hlast).filter (!drops ·)
        rw [filter_eraseIdx (List.getElem?_eq_getElem hlt) hx] at hperm
        have htake : ∀ k ≤ i, ((xs.set i last).take (xs.length-1)).take k = xs.take k := by
          intro k hk
          rw [List.take_take,Nat.min_eq_left (by omega),List.take_set_of_le hk]
        obtain ⟨ys,sl',hys,hr,hold,hcap',hkeep⟩ := ih h₁ (by simp; omega)
          (by rw [htake i le_rfl]; exact hpassed)
        have hget' : sl.get (sl.numUsed-1) = some last := by rw [h.used,h.get_eq hn,hlast]
        rw [← h.used] at hset
        refine ⟨ys,sl',hys.trans hperm,by simp [hx,hget',hset,hr],hold,hcap'.trans hcap,?_⟩
        intro k hk
        have hki : k ≤ i := by
          by_contra hik
          have hmem : xs[i] ∈ xs.take k := List.mem_take_iff_getElem.mpr ⟨i,by omega,rfl⟩
          rw [hk _ hmem] at hx
          cases hx
        rw [hkeep k (by rw [htake k hki]; exact hk),htake k hki]
      · have hpassed' : ∀ x ∈ xs.take (i+1), drops x = false := by
          intro x hmem
          rw [List.take_succ_eq_append_getElem hlt] at hmem
          rcases List.mem_append.mp hmem with hmem | hmem
          · exact hpassed x hmem
          · rw [List.mem_singleton.mp hmem]
            exact Bool.not_eq_true _ ▸ hx
        obtain ⟨ys,sl',hys,hr,hold,hcap⟩ := ih h (by omega) hpassed'
        exact ⟨ys,sl',hys,by simp [hx,hr],hold,hcap⟩
    · exact ⟨xs,sl,by rw [filter_passed (by omega) hpassed],if_neg (h.used ▸ hlt),h,rfl,
        fun _ _ => rfl⟩

end Dropping

section Removal
variable [DecidableEq α] {element : α}

theorem removeLoop_eq_dropLoop (element : α) (rounds : ℕ) (sl : Smartlist α) (i : ℕ) :
    removeLoop element rounds sl i = dropLoop (· = element) rounds sl i := by
  induction rounds generalizing sl i with
  | zero => rfl
  | succ rounds ih => simp only [removeLoop,dropLoop,ih,decide_eq_true_eq]

theorem Holds.remove_take {sl : Smartlist α} {xs : List α} (h : sl.Holds xs) {null : α}
    (hnull : element ≠ null) :
    ∃ ys, ys.Perm (xs.filter (· ≠ element)) ∧ Yields (sl.remove null element) sl ys ∧
      ∀ k, element ∉ xs.take k → ys.take k = xs.take k := by
  obtain ⟨ys,sl',hys,hr,hold,hcap,hkeep⟩ := dropLoop_holds (· = element) sl.numUsed (i := 0) h
    (by rw [h.used]; omega) (show ∀ x ∈ xs.take 0, _ by simp)
  rw [← removeLoop_eq_dropLoop] at hr
  refine ⟨ys,by simpa using hys,⟨sl',by rw [Smartlist.remove,if_neg hnull,hr],hold,
    hcap.trans_le (le_max_left _ _)⟩,fun k hk => hkeep k fun x hx => ?_⟩
  exact decide_eq_false fun heq : x = element => hk (heq ▸ hx)

theorem Holds.remove {sl : Smartlist α} {xs : List α} (h : sl.Holds xs) {null : α}
    (hnull : element ≠ null) :
    ∃ ys, ys.Perm (xs.filter (· ≠ element)) ∧ Yields (sl.remove null element) sl ys := by
  obtain ⟨ys,hys,hyields,-⟩ := h.remove_take hnull
  exact ⟨ys,hys,hyields⟩

end Removal

end Smartlist

end WpaCliWrapper
