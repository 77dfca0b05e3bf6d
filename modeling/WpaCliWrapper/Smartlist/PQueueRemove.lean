import WpaCliWrapper.Smartlist.PQueueRuns

/-! The removal of an item from the middle of a priority queue. -/
namespace WpaCliWrapper
open Heap

namespace PQueue
variable {α : Type} [DecidableEq α] (compare : α → α → ℤ)

/-- A heap whose items know their positions. -/
structure Heaped (q : PQueue α) : Prop where
  holds : q.sl.Holds q.sl.items
  ordered : Ordered (Before compare) q.sl.items
  tracked : ∀ (i : ℕ) item, q.sl.items[i]? = some item → q.idx item = i

/-- The removal leaves a heap of the other items, and the next pop returns a least one. -/
def KeepsOrder (q : PQueue α) (item : α) : Prop :=
  ∃ q', remove compare q item = some q' ∧ (item :: q'.sl.items).Perm q.sl.items ∧
    Ordered (Before compare) q'.sl.items ∧
      (q'.sl.items ≠ [] → ∃ q'' top, pop compare q' = some (q'',top) ∧
        Popped.Least compare ⟨q'.sl.items,top⟩)

/-- The last item is the one that is removed, or it is not before the parent of that one. -/
def LastFits (q : PQueue α) (item : α) : Prop :=
  ∀ last above, q.sl.items.getLast? = some last →
    q.sl.items[parent (q.idx item).toNat]? = some above →
      last = item ∨ ¬ Before compare last above

omit [DecidableEq α] in
theorem cons_set_last_perm {xs : List α} {i n : ℕ} {item last : α} (hi : xs[i]? = some item)
    (hn : xs.length = n+1) (hlast : xs[n]? = some last) :
    (item :: (xs.take n).set i last).Perm xs := by
  obtain ⟨hlt,-⟩ := List.getElem?_eq_some_iff.mp hi
  have hperm := Smartlist.set_last_perm hlt
    (show xs[xs.length-1]? = some last by rw [hn]; exact hlast)
  rw [hn,Nat.add_sub_cancel,List.take_set] at hperm
  obtain ⟨a,x,b,rfl,rfl⟩ := Smartlist.exists_append_cons hlt
  obtain rfl : x = item := by simpa using hi
  rw [Smartlist.eraseIdx_middle] at hperm
  exact (hperm.cons x).trans List.perm_middle.symm

section Remove
variable {compare} (hc : Comparison compare)
include hc

/-- An item that is before all its children stays where it is. -/
theorem heapify_stays {q : PQueue α} {xs : List α} (h : q.sl.Holds xs) {k : ℕ} {a : α}
    (ha : xs[k]? = some a)
    (hbefore : ∀ i b, 0 < i → parent i = k → xs[i]? = some b → Before compare a b) :
    heapify compare q k = some q := by
  have hlt := (List.getElem?_eq_some_iff.mp ha).1
  obtain ⟨n,hn⟩ : ∃ n, q.sl.numUsed = n+1 := ⟨q.sl.numUsed-1,by have := h.used; omega⟩
  rw [heapify,hn,heapifyLoop]
  by_cases hle : xs.length ≤ leftChild k
  · rw [if_pos (h.used ▸ hle)]
  rw [if_neg (h.used ▸ hle)]
  obtain ⟨best,hbest,hcases⟩ := bestIdx_cases hc h (k := k) (by omega)
  rcases hcases with ⟨rfl,-⟩ | ⟨⟨hpos,hp,hlt',-⟩,hnot,-⟩
  · simp [hbest]
  · have hb := List.getElem?_eq_getElem hlt'
    exact absurd (hbefore best _ hpos hp hb) (hnot _ _ ha hb)

variable {q : PQueue α} (h : Heaped compare q) {item last above : α} {i n : ℕ}
  (hi : q.sl.items[i]? = some item) (hn : q.sl.items.length = n+1)
  (hlast : q.sl.items[n]? = some last)
include h hi hn hlast

omit hc hlast in
theorem remove_eq : remove compare q item =
    if i = n then some ⟨{ q.sl with numUsed := n },Function.update q.idx item (-1)⟩
    else fill compare ⟨{ q.sl with numUsed := n },Function.update q.idx item (-1)⟩ i := by
  have hused := h.holds.used
  rw [hn] at hused
  have hidx : q.idx item = Int.ofNat i := h.tracked i item hi
  simp only [remove,hidx,hused]

/-- The removal of an item whose place the last item may take. -/
theorem keepsOrder_of_fits (hfits : 0 < i → i ≠ n → NotBefore (Before compare)
    ((q.sl.items.take n).set i last) i (parent i)) : KeepsOrder compare q item := by
  have hle : i < n+1 := hn ▸ (List.getElem?_eq_some_iff.mp hi).1
  obtain ⟨q',ys,hremove,hold,hperm,hord⟩ : ∃ q' ys, remove compare q item = some q' ∧
      q'.sl.Holds ys ∧ (item :: ys).Perm q.sl.items ∧ Ordered (Before compare) ys := by
    have := hc.connected
    rw [remove_eq h hi hn]
    by_cases hin : i = n
    · subst hin
      cases hi.symm.trans hlast
      refine ⟨_,_,if_pos rfl,h.holds.take (n := i) (by omega),?_,h.ordered.take i⟩
      have hperm := cons_set_last_perm hi hn hi
      rwa [List.set_eq_of_length_le (by simp [hn])] at hperm
    · obtain ⟨q',ys,hfill,hold,hperm,hord⟩ := fill_holds hc h.holds
        (Function.update q.idx item (-1)) hn (by omega) hlast
        ((h.ordered.take n).downAt fun hpos => hfits hpos hin)
      exact ⟨q',ys,(if_neg hin).trans hfill,hold,
        (hperm.cons item).trans (cons_set_last_perm hi hn hlast),hord⟩
  obtain rfl := hold.items_eq
  refine ⟨q',hremove,hperm,hord,fun hne => ?_⟩
  obtain ⟨top,rest,hitems⟩ := List.exists_cons_of_ne_nil hne
  rw [hitems] at hold hord
  obtain ⟨q'',zs,hpop,-⟩ := pop_holds hc hold hord
  exact ⟨q'',top,hpop,hitems ▸ least_of_ordered hc hord⟩

/-- A last item that is before the parent of its new place stays there. -/
theorem not_keepsOrder (hpos : 0 < i) (hin : i ≠ n) (habove : q.sl.items[parent i]? = some above)
    (hbefore : Before compare last above) : ¬ KeepsOrder compare q item := by
  have := hc.connected
  have hlt : i < n := by
    have := (List.getElem?_eq_some_iff.mp hi).1
    omega
  have hp := parent_lt hpos
  have hlen : (q.sl.items.take n).length = n := by simp [hn]
  have hnew : ((q.sl.items.take n).set i last)[i]? = some last := by simp [hlen,hlt]
  have hold : ∀ j, j ≠ i → ∀ x, ((q.sl.items.take n).set i last)[j]? = some x →
      q.sl.items[j]? = some x := by
    intro j hji x hx
    rw [List.getElem?_set_ne hji.symm,List.getElem?_take] at hx
    split at hx
    · exact hx
    · cases hx
  obtain ⟨sl₁,hset,h₁,-⟩ := h.holds.set_take (i := i) (n := n) (by omega) (by omega) last
  rw [List.take_set] at h₁
  obtain ⟨q₁,hidx,hsl⟩ := updateIdx_holds
    (q := ⟨sl₁,Function.update q.idx item (-1)⟩) h₁ (i := i) (by simp [hlen,hlt])
  -- the children are not before the item that was removed, nor is this before its parent
  have hstay : heapify compare q₁ i = some q₁ := by
    refine heapify_stays hc (by rw [hsl]; exact h₁) hnew fun j b hj hpj hb => ?_
    have hji : j ≠ i := fun hji => by
      have := parent_lt hj
      omega
    have hchild := h.ordered j hj b item (hold j hji b hb)
    rw [hpj] at hchild
    have hnot := IsOrderConnected.neg_trans (hchild hi) (h.ordered i hpos item above hi habove)
    exact (IsOrderConnected.conn last b above hbefore).resolve_right hnot
  have hget : Smartlist.get { q.sl with numUsed := n } n = some last := by
    change q.sl.get n = some last
    rw [h.holds.get_eq (by omega),hlast]
  rintro ⟨q',hremove,-,hord,-⟩
  rw [remove_eq h hi hn,if_neg hin] at hremove
  obtain rfl : q₁ = q' := by simpa [fill,hget,hset,hidx,hstay] using hremove
  rw [hsl,h₁.items_eq] at hord
  refine hord i hpos last above hnew ?_ hbefore
  rw [List.getElem?_set_ne hp.ne',List.getElem?_take_of_lt (hp.trans hlt),habove]

end Remove

/-- The heap order is kept exactly if the last item may take the place of the one removed. -/
theorem keepsOrder_iff {compare : α → α → ℤ} (hc : Comparison compare) {q : PQueue α}
    (h : Heaped compare q) {item : α} (hmem : item ∈ q.sl.items) :
    KeepsOrder compare q item ↔ LastFits compare q item := by
  obtain ⟨i,hi⟩ := List.mem_iff_getElem?.mp hmem
  have hlt := (List.getElem?_eq_some_iff.mp hi).1
  obtain ⟨n,hn⟩ : ∃ n, q.sl.items.length = n+1 := ⟨q.sl.items.length-1,by omega⟩
  obtain ⟨last,hlast⟩ : ∃ last, q.sl.items[n]? = some last :=
    ⟨_,List.getElem?_eq_getElem (by omega)⟩
  have hidx := h.tracked i item hi
  have hgetLast : q.sl.items.getLast? = some last := by
    rw [List.getLast?_eq_getElem?,hn,Nat.add_sub_cancel,hlast]
  constructor
  · intro hk last' above hlast' habove
    cases hgetLast.symm.trans hlast'
    rw [hidx,Int.toNat_natCast] at habove
    by_contra hnot
    obtain ⟨hne,hbefore⟩ := not_or.mp hnot
    rw [not_not] at hbefore
    by_cases hpos : 0 < i
    · have hin : i ≠ n := fun hin => hne (by
        subst hin
        exact Option.some.inj (hlast.symm.trans hi))
      exact not_keepsOrder hc h hi hn hlast hpos hin habove hbefore hk
    · obtain rfl : i = 0 := by omega
      have := hc.asymm
      have := hc.connected
      exact h.ordered.root_le n last above hlast habove hbefore
  · intro hfits
    refine keepsOrder_of_fits hc h hi hn hlast fun hpos hin x above hx habove => ?_
    have hp := parent_lt hpos
    have hlen : (q.sl.items.take n).length = n := by simp [hn]
    rw [List.getElem?_set_ne hp.ne',List.getElem?_take_of_lt (by omega)] at habove
    obtain rfl : last = x := by simpa [hlen,show i < n by omega] using hx
    refine (hfits last above hgetLast (by rwa [hidx,Int.toNat_natCast])).resolve_left fun heq => ?_
    have hpos' := h.tracked n last hlast
    rw [heq,hidx] at hpos'
    exact hin (Int.ofNat.inj hpos')

/-- The last item comes from another subtree, and is before the parent of the item removed. -/
def lopsided : PQueue ℕ :=
  ⟨⟨[0,10,1,11,12,2] ++ List.replicate 10 0,6,16⟩,fun item => [0,10,1,11,12,2].idxOf item⟩

theorem lopsided_heaped : Heaped difference lopsided := by
  refine ⟨⟨⟨List.replicate 10 0,rfl⟩,rfl,rfl,Nat.succ_pos 15⟩,by decide,?_⟩
  intro i item hi
  obtain ⟨hlt,rfl⟩ := List.getElem?_eq_some_iff.mp hi
  exact congrArg Nat.cast (List.Nodup.idxOf_getElem (by decide) i hlt)

theorem keepsOrder_lopsided : Comparison difference ∧ Heaped difference lopsided ∧
    11 ∈ lopsided.sl.items ∧ ¬ KeepsOrder difference lopsided 11 :=
  ⟨difference_comparison,lopsided_heaped,by decide,not_keepsOrder difference_comparison
    lopsided_heaped (i := 3) (n := 5) rfl rfl (show _ = some 2 from rfl) (by decide) (by decide)
    (show _ = some 10 from rfl) (by decide)⟩

theorem keepsOrder_root : KeepsOrder difference lopsided 0 := by
  refine (keepsOrder_iff difference_comparison lopsided_heaped (by decide)).mpr ?_
  intro last above hlast habove
  cases hlast
  cases habove
  exact .inr (by decide)

end PQueue

end WpaCliWrapper
