import Mathlib.Data.List.Nodup
import WpaCliWrapper.Smartlist.PQueueRemove

/-! The index fields of queued items, whatever the items compare like. -/
namespace WpaCliWrapper
open Heap

namespace PQueue
variable {α : Type} [DecidableEq α]

/-- Each item is in the queue once, and its index field is its position. -/
structure Tracks (q : PQueue α) (xs : List α) : Prop where
  holds : q.sl.Holds xs
  nodup : xs.Nodup
  index : ∀ (i : ℕ) x, xs[i]? = some x → q.idx x = i

/-- The items are in another order, of which their index fields know, and no other index field is
written. -/
def Rearranges (r : Option (PQueue α)) (q : PQueue α) (xs : List α) : Prop :=
  ∃ q' ys, r = some q' ∧ Tracks q' ys ∧ ys.Perm xs ∧ ∀ x, x ∉ xs → q'.idx x = q.idx x

omit [DecidableEq α] in
theorem nodup_index {xs : List α} (h : xs.Nodup) {i j : ℕ} {x : α} (hi : xs[i]? = some x)
    (hj : xs[j]? = some x) : i = j := by
  obtain ⟨hi,rfl⟩ := List.getElem?_eq_some_iff.mp hi
  obtain ⟨hj,hx⟩ := List.getElem?_eq_some_iff.mp hj
  exact ((h.getElem_inj_iff).mp hx).symm

omit [DecidableEq α] in
theorem Tracks.stays {q : PQueue α} {xs : List α} (h : Tracks q xs) : Rearranges (some q) q xs :=
  ⟨q,xs,rfl,h,.refl xs,fun _ _ => rfl⟩

omit [DecidableEq α] in
theorem Rearranges.after {r : Option (PQueue α)} {q q' : PQueue α} {xs ys : List α}
    (h : Rearranges r q' ys) (hperm : ys.Perm xs) (hframe : ∀ x, x ∉ xs → q'.idx x = q.idx x) :
    Rearranges r q xs := by
  obtain ⟨q'',zs,hr,htracks,hzs,hframe'⟩ := h
  refine ⟨q'',zs,hr,htracks,hzs.trans hperm,fun x hx => ?_⟩
  rw [hframe' x (fun hmem => hx (hperm.mem_iff.mp hmem)),hframe x hx]

section Exchange
variable {q : PQueue α} {xs : List α}

theorem updateIdx_eq (h : q.sl.Holds xs) {i : ℕ} {x : α} (hx : xs[i]? = some x) :
    updateIdx q i = some ⟨q.sl,Function.update q.idx x i⟩ := by
  simp [updateIdx,h.get_eq (List.getElem?_eq_some_iff.mp hx).1,hx]

/-- After an exchange both items know their new positions. -/
theorem Tracks.exchange (h : Tracks q xs) {i j : ℕ} {a b : α} (hi : xs[i]? = some a)
    (hj : xs[j]? = some b) : ∃ q', q.exchange i j = some q' ∧ Tracks q' (exchanged xs i j a b) ∧
      ∀ x, x ∉ xs → q'.idx x = q.idx x := by
  obtain ⟨sl,he,hold,-⟩ := h.holds.exchange hi hj
  have hleft := exchanged_left hi hj
  have hright : (exchanged xs i j a b)[j]? = some a := exchanged_right hj
  have hnodup := (exchanged_perm hi hj).nodup_iff.mpr h.nodup
  have hidx : q.exchange i j =
      some ⟨sl,Function.update (Function.update q.idx b i) a j⟩ := by
    rw [PQueue.exchange,he]
    simp only [Option.bind_eq_bind,Option.bind_some,updateIdx_eq (q := ⟨sl,q.idx⟩) hold hleft]
    exact updateIdx_eq (q := ⟨sl,Function.update q.idx b i⟩) hold hright
  refine ⟨_,hidx,⟨hold,hnodup,fun k x hx => ?_⟩,fun x hx => ?_⟩
  · by_cases hkj : k = j
    · subst hkj
      obtain rfl := Option.some.inj (hright.symm.trans hx)
      exact Function.update_self _ _ _
    have hxa : x ≠ a := fun heq => hkj (nodup_index hnodup hx (heq ▸ hright))
    change Function.update _ a _ x = _
    rw [Function.update_of_ne hxa]
    by_cases hki : k = i
    · subst hki
      obtain rfl := Option.some.inj (hleft.symm.trans hx)
      exact Function.update_self _ _ _
    · have hxb : x ≠ b := fun heq => hki (nodup_index hnodup hx (heq ▸ hleft))
      rw [Function.update_of_ne hxb]
      rw [exchanged_other hki hkj] at hx
      exact h.index k x hx
  · have hxa : x ≠ a := fun heq => hx (heq ▸ List.mem_of_getElem? hi)
    have hxb : x ≠ b := fun heq => hx (heq ▸ List.mem_of_getElem? hj)
    change Function.update _ a _ x = _
    rw [Function.update_of_ne hxa,Function.update_of_ne hxb]

end Exchange

section Loops
variable (compare : α → α → ℤ)

omit [DecidableEq α] in
/-- The item that goes up is a child, if it is not the item itself. -/
theorem bestIdx_some {q : PQueue α} {xs : List α} (h : q.sl.Holds xs) {k : ℕ}
    (hk : leftChild k < xs.length) :
    ∃ best, bestIdx compare q k = some best ∧ (best = k ∨ k < best ∧ best < xs.length) := by
  have hkl : k < leftChild k := by
    unfold leftChild
    omega
  have hget : ∀ i, i < xs.length → ∃ x, q.sl.get i = some x := fun i hi =>
    ⟨xs[i],by rw [h.get_eq hi,List.getElem?_eq_getElem hi]⟩
  obtain ⟨a,ha⟩ := hget k (by omega)
  obtain ⟨l,hl⟩ := hget (leftChild k) hk
  have hbest : ∀ i, i = k ∨ k < i ∧ i < xs.length → ∃ x, q.sl.get i = some x := fun i hi =>
    hget i (by omega)
  rw [bestIdx,ha,hl]
  simp only [Option.bind_eq_bind,Option.bind_some]
  generalize hchoice : (if compare a l < 0 then k else leftChild k) = choice
  have hchoice' : choice = k ∨ k < choice ∧ choice < xs.length := by
    rw [← hchoice]
    split
    · exact .inl rfl
    · exact .inr ⟨hkl,hk⟩
  obtain ⟨b,hb⟩ := hbest choice hchoice'
  by_cases hr : leftChild k+1 < xs.length
  · obtain ⟨r,hright⟩ := hget (leftChild k+1) hr
    rw [if_pos (h.used ▸ hr),hright,hb]
    by_cases hrb : compare r b < 0
    · exact ⟨leftChild k+1,if_pos hrb,.inr ⟨by omega,hr⟩⟩
    · exact ⟨choice,if_neg hrb,hchoice'⟩
  · rw [if_neg (h.used ▸ hr)]
    exact ⟨choice,rfl,hchoice'⟩

theorem heapifyLoop_tracks {q : PQueue α} {xs : List α} (h : Tracks q xs) {rounds k : ℕ}
    (hrounds : xs.length ≤ k+rounds) : Rearranges (heapifyLoop compare rounds q k) q xs := by
  induction rounds generalizing q xs k with
  | zero =>
    have hle : q.sl.numUsed ≤ leftChild k := by
      rw [h.holds.used,leftChild]
      omega
    rw [heapifyLoop,if_pos hle]
    exact h.stays
  | succ rounds ih =>
    rw [heapifyLoop]
    by_cases hle : xs.length ≤ leftChild k
    · rw [if_pos (h.holds.used ▸ hle)]
      exact h.stays
    rw [if_neg (h.holds.used ▸ hle)]
    obtain ⟨best,hbest,rfl | ⟨hgt,hlt⟩⟩ := bestIdx_some compare h.holds (Nat.lt_of_not_le hle)
    · simpa [hbest] using h.stays
    · have hi := List.getElem?_eq_getElem (hgt.trans hlt)
      have hj := List.getElem?_eq_getElem hlt
      obtain ⟨q₁,hex,h₁,hframe⟩ := h.exchange hi hj
      have hrest := ih h₁ (k := best) (by rw [exchanged_length]; omega)
      have hloop := hrest.after (exchanged_perm hi hj) hframe
      simpa [hbest,hgt.ne',hex] using hloop

theorem addLoop_tracks {q : PQueue α} {xs : List α} (h : Tracks q xs) {rounds k : ℕ}
    (hk : k < xs.length) (hrounds : k ≤ rounds) :
    Rearranges (addLoop compare rounds q k) q xs := by
  induction rounds generalizing q xs k with
  | zero =>
    rw [addLoop,if_pos (Nat.le_zero.mp hrounds)]
    exact h.stays
  | succ rounds ih =>
    rw [addLoop]
    by_cases h0 : k = 0
    · rw [if_pos h0]
      exact h.stays
    have hp := parent_lt (Nat.pos_of_ne_zero h0)
    have hi := List.getElem?_eq_getElem (hp.trans hk)
    have hj := List.getElem?_eq_getElem hk
    rw [if_neg h0,h.holds.get_eq hk,h.holds.get_eq (hp.trans hk),hi,hj]
    by_cases hlt : compare xs[k] xs[parent k] < 0
    · obtain ⟨q₁,hex,h₁,hframe⟩ := h.exchange hi hj
      have hrest := ih h₁ (by rw [exchanged_length]; omega) (show parent k ≤ rounds by omega)
      have hloop := hrest.after (exchanged_perm hi hj) hframe
      simpa [hlt,hex] using hloop
    · simpa [hlt] using h.stays

end Loops

section Operations
variable (compare : α → α → ℤ) {q : PQueue α} {xs : List α}

theorem add_tracks (h : Tracks q xs) (hlen : xs.length < 2^30) (fresh : ℕ → α) {item : α}
    (hitem : item ∉ xs) :
    ∃ q' ys, add compare fresh q item = some q' ∧ Tracks q' ys ∧ ys.Perm (item :: xs) ∧
      ∀ x, x ∉ item :: xs → q'.idx x = q.idx x := by
  obtain ⟨sl,hadd,hold,-⟩ := h.holds.add fresh hlen item
  have hused : sl.numUsed-1 = xs.length := by simp [hold.used]
  have hperm := List.perm_append_singleton item xs
  have hidx := updateIdx_eq (q := ⟨sl,q.idx⟩) hold
    (show (xs ++ [item])[xs.length]? = some item by simp)
  have htracks : Tracks ⟨sl,Function.update q.idx item xs.length⟩ (xs ++ [item]) := by
    refine ⟨hold,hperm.nodup_iff.mpr (List.nodup_cons.mpr ⟨hitem,h.nodup⟩),fun i x hx => ?_⟩
    by_cases hi : i < xs.length
    · rw [List.getElem?_append_left hi] at hx
      have hne : x ≠ item := fun heq => hitem (heq ▸ List.mem_of_getElem? hx)
      exact (Function.update_of_ne hne _ _).trans (h.index i x hx)
    · have hlt := (List.getElem?_eq_some_iff.mp hx).1
      rw [List.length_append,List.length_singleton] at hlt
      obtain rfl : i = xs.length := by omega
      obtain rfl : item = x := by simpa using hx
      exact Function.update_self _ _ _
  obtain ⟨q',ys,hloop,htracks',hys,hframe⟩ := addLoop_tracks compare htracks
    (show xs.length < _ by simp) (show xs.length ≤ sl.numUsed by omega)
  refine ⟨q',ys,?_,htracks',hys.trans hperm,fun x hx => ?_⟩
  · simp [add,hadd,hused,hidx,hloop]
  · rw [hframe x (fun hmem => hx (hperm.mem_iff.mp hmem))]
    have hne : x ≠ item := fun heq => hx (heq ▸ List.mem_cons_self)
    exact Function.update_of_ne hne _ _

/-- The last item is put in the place of one that has left, and the items are in order again. -/
theorem fill_tracks (h : Tracks q xs) {n k : ℕ} {item : α} (hn : xs.length = n+1) (hk : k < n)
    (hitem : xs[k]? = some item) :
    ∃ q' ys, fill compare ⟨{ q.sl with numUsed := n },Function.update q.idx item (-1)⟩ k = some q' ∧
      Tracks q' ys ∧ (item :: ys).Perm xs ∧ q'.idx item = -1 ∧
        ∀ x, x ∉ xs → q'.idx x = q.idx x := by
  have hlt : n < xs.length := by omega
  have hlast : xs[n]? = some xs[n] := List.getElem?_eq_getElem hlt
  have hperm := cons_set_last_perm hitem hn hlast
  have hnodup := hperm.nodup_iff.mpr h.nodup
  obtain ⟨hnot,hnodup⟩ := List.nodup_cons.mp hnodup
  obtain ⟨sl,hset,hold,-⟩ := h.holds.set_take (show k < xs.length by omega) hlt.le xs[n]
  rw [List.take_set] at hold
  have hk' : ((xs.take n).set k xs[n])[k]? = some xs[n] := by
    rw [List.getElem?_set_self (by simp; omega)]
  have hidx := updateIdx_eq (q := ⟨sl,Function.update q.idx item (-1)⟩) hold hk'
  have htracks : Tracks ⟨sl,Function.update (Function.update q.idx item (-1)) xs[n] k⟩
      ((xs.take n).set k xs[n]) := by
    refine ⟨hold,hnodup,fun i x hx => ?_⟩
    by_cases hik : i = k
    · subst hik
      obtain rfl := Option.some.inj (hk'.symm.trans hx)
      exact Function.update_self _ _ _
    · have hne : x ≠ xs[n] := fun heq => hik (nodup_index hnodup hx (heq ▸ hk'))
      have hne' : x ≠ item := fun heq => hnot (heq ▸ List.mem_of_getElem? hx)
      rw [List.getElem?_set_ne (Ne.symm hik),List.getElem?_take] at hx
      split at hx
      · refine (Function.update_of_ne hne _ _).trans ((Function.update_of_ne hne' _ _).trans ?_)
        exact h.index i x hx
      · cases hx
  obtain ⟨q',ys,hrun,htracks',hys,hframe⟩ := heapifyLoop_tracks compare htracks (k := k)
    (show _ ≤ k+sl.numUsed by rw [hold.used]; omega)
  have hne : item ≠ xs[n] := fun heq => hnot (by rw [heq]; exact List.mem_of_getElem? hk')
  refine ⟨q',ys,?_,htracks',(hys.cons item).trans hperm,?_,fun x hx => ?_⟩
  · have hget : Smartlist.get { q.sl with numUsed := n } n = some xs[n] :=
      (h.holds.get_eq hlt).trans hlast
    simp [fill,heapify,hget,hset,hidx,hrun]
  · rw [hframe item hnot]
    exact (Function.update_of_ne hne _ _).trans (Function.update_self _ _ _)
  · have hx' : x ∉ (xs.take n).set k xs[n] := fun hmem =>
      hx (hperm.subset (List.mem_cons_of_mem item hmem))
    have hxlast : x ≠ xs[n] := fun heq => hx (heq ▸ List.getElem_mem hlt)
    have hxitem : x ≠ item := fun heq => hx (heq ▸ List.mem_of_getElem? hitem)
    rw [hframe x hx']
    exact (Function.update_of_ne hxlast _ _).trans (Function.update_of_ne hxitem _ _)

/-- The last item may also be the one that leaves. -/
theorem drop_tracks (h : Tracks q xs) {n : ℕ} {item : α} (hn : xs.length = n+1)
    (hitem : xs[n]? = some item) :
    ∃ ys, Tracks ⟨{ q.sl with numUsed := n },Function.update q.idx item (-1)⟩ ys ∧
      (item :: ys).Perm xs ∧ ∀ x, x ∉ xs → Function.update q.idx item (-1) x = q.idx x := by
  have hsplit : xs = xs.take n ++ [item] := by
    obtain ⟨hlt,rfl⟩ := List.getElem?_eq_some_iff.mp hitem
    rw [← List.take_succ_eq_append_getElem hlt,List.take_of_length_le hn.le]
  have hperm : (item :: xs.take n).Perm xs := by
    conv_rhs => rw [hsplit]
    exact (List.perm_append_singleton item _).symm
  obtain ⟨hnot,hnodup⟩ := List.nodup_cons.mp (hperm.nodup_iff.mpr h.nodup)
  refine ⟨xs.take n,⟨h.holds.take (by omega),hnodup,fun i x hx => ?_⟩,hperm,fun x hx => ?_⟩
  · have hne : x ≠ item := fun heq => hnot (heq ▸ List.mem_of_getElem? hx)
    rw [List.getElem?_take] at hx
    split at hx
    · exact (Function.update_of_ne hne _ _).trans (h.index i x hx)
    · cases hx
  · have hne : x ≠ item := fun heq => hx (heq ▸ List.mem_of_getElem? hitem)
    exact Function.update_of_ne hne _ _

theorem pop_tracks (h : Tracks q xs) {top : α} (htop : xs[0]? = some top) :
    ∃ q' ys, pop compare q = some (q',top) ∧ Tracks q' ys ∧ (top :: ys).Perm xs ∧
      q'.idx top = -1 ∧ ∀ x, x ∉ xs → q'.idx x = q.idx x := by
  obtain ⟨hpos,-⟩ := List.getElem?_eq_some_iff.mp htop
  have hget : q.sl.get 0 = some top := (h.holds.get_eq hpos).trans htop
  have hused := h.holds.used
  obtain ⟨n,hn⟩ : ∃ n, xs.length = n+1 := ⟨xs.length-1,by omega⟩
  rw [hn] at hused
  cases n with
  | zero =>
    obtain ⟨ys,htracks,hperm,hframe⟩ := drop_tracks h hn htop
    refine ⟨_,ys,?_,htracks,hperm,Function.update_self _ _ _,hframe⟩
    simp [pop,hget,hused]
  | succ n =>
    obtain ⟨q',ys,hfill,htracks,hperm,hidx,hframe⟩ := fill_tracks compare h hn (Nat.succ_pos n) htop
    refine ⟨q',ys,?_,htracks,hperm,hidx,hframe⟩
    simp [pop,hget,hused,hfill]

theorem remove_tracks (h : Tracks q xs) {item : α} (hitem : item ∈ xs) :
    ∃ q' ys, remove compare q item = some q' ∧ Tracks q' ys ∧ (item :: ys).Perm xs ∧
      q'.idx item = -1 ∧ ∀ x, x ∉ xs → q'.idx x = q.idx x := by
  obtain ⟨i,hi⟩ := List.mem_iff_getElem?.mp hitem
  obtain ⟨hlt,-⟩ := List.getElem?_eq_some_iff.mp hi
  have hidx : q.idx item = Int.ofNat i := h.index i item hi
  have hused := h.holds.used
  obtain ⟨n,hn⟩ : ∃ n, xs.length = n+1 := ⟨xs.length-1,by omega⟩
  rw [hn] at hused
  rw [remove,hidx,hused]
  by_cases hlast : i = n
  · subst hlast
    obtain ⟨ys,htracks,hperm,hframe⟩ := drop_tracks h hn hi
    exact ⟨_,ys,if_pos rfl,htracks,hperm,Function.update_self _ _ _,hframe⟩
  · obtain ⟨q',ys,hfill,htracks,hperm,hidx',hframe⟩ := fill_tracks compare h hn
      (show i < n by omega) hi
    exact ⟨q',ys,(if_neg hlast).trans hfill,htracks,hperm,hidx',hframe⟩

end Operations

/-- An item is added, with the contents of fresh memory, one is popped, or one is removed. -/
inductive Act (α : Type) where
  | add (item : α) (fresh : ℕ → α)
  | pop
  | remove (item : α)

/-- An item has been added, or it was popped or removed. -/
inductive Event (α : Type) where
  | added (item : α)
  | left (item : α)

/-- The items that were added and did not leave yet. The latest event comes first. -/
def queued : List (Event α) → List α
  | [] => []
  | .added item :: past => item :: queued past
  | .left item :: past => (queued past).erase item

section Runs

def act (compare : α → α → ℤ) (q : PQueue α) : Act α → Option (PQueue α × Event α)
  | .add item fresh => (add compare fresh q item).map fun q' => (q',.added item)
  | .pop => (pop compare q).map fun (q',top) => (q',.left top)
  | .remove item => (remove compare q item).map fun q' => (q',.left item)

/-- Only an item that is not queued is added, only a queued one is removed, and nothing is popped
from an empty queue. -/
def Permitted (q : PQueue α) : Act α → Prop
  | .add item _ => item ∉ q.sl.items
  | .pop => q.sl.items ≠ []
  | .remove item => item ∈ q.sl.items

/-- The queues that a run reaches, with what has happened. Each operation may compare in its own
way. -/
inductive Reached (start : PQueue α) : PQueue α → List (Event α) → Prop
  | start : Reached start start []
  | act {q q' : PQueue α} {past : List (Event α)} {e : Event α} (h : Reached start q past)
      (compare : α → α → ℤ) (op : Act α) (hop : Permitted q op)
      (hact : act compare q op = some (q',e)) : Reached start q' (e :: past)

/-- An item that is added finds fewer than 2^30 items in the queue. -/
def HasRoom (q : PQueue α) : Act α → Prop
  | .add _ _ => q.sl.items.length < 2^30
  | _ => True

/-- What is known of a reached queue. -/
structure Exact (q : PQueue α) (past : List (Event α)) : Prop where
  tracks : Tracks q q.sl.items
  left : ∀ x, .left x ∈ past → x ∉ queued past → q.idx x = -1
  members : q.sl.items.Perm (queued past)

variable {q : PQueue α} {past : List (Event α)}

theorem Exact.leave (h : Exact q past) {q' : PQueue α} {ys : List α} {item : α}
    (htracks : Tracks q' ys) (hperm : (item :: ys).Perm q.sl.items) (hidx : q'.idx item = -1)
    (hframe : ∀ x, x ∉ q.sl.items → q'.idx x = q.idx x) : Exact q' (.left item :: past) := by
  have hitems := htracks.holds.items_eq
  refine ⟨by rwa [hitems],fun x hx hnot => ?_,?_⟩
  · by_cases hxi : x = item
    · rwa [hxi]
    have hpast : .left x ∈ past := by simpa [hxi] using hx
    have hqueued : x ∉ queued past := fun hmem => hnot ((List.mem_erase_of_ne hxi).mpr hmem)
    rw [hframe x (fun hmem => hqueued (h.members.mem_iff.mp hmem))]
    exact h.left x hpast hqueued
  · rw [hitems,queued]
    have herase := (hperm.trans h.members).erase item
    rwa [List.erase_cons_head] at herase

theorem Exact.enter (h : Exact q past) {q' : PQueue α} {ys : List α} {item : α}
    (htracks : Tracks q' ys) (hperm : ys.Perm (item :: q.sl.items))
    (hframe : ∀ x, x ∉ item :: q.sl.items → q'.idx x = q.idx x) :
    Exact q' (.added item :: past) := by
  have hitems := htracks.holds.items_eq
  have hmembers := h.members.cons item
  refine ⟨by rwa [hitems],fun x hx hnot => ?_,by rw [hitems]; exact hperm.trans hmembers⟩
  have hpast : .left x ∈ past := by simpa using hx
  rw [hframe x (fun hmem => hnot (hmembers.mem_iff.mp hmem))]
  exact h.left x hpast fun hmem => hnot (List.mem_cons_of_mem item hmem)

/-- One operation that is permitted and finds room succeeds and keeps the index fields exact. -/
theorem Exact.act (h : Exact q past) (compare : α → α → ℤ) {op : Act α} (hop : Permitted q op)
    (hroom : HasRoom q op) : ∃ q' e, act compare q op = some (q',e) ∧ Exact q' (e :: past) := by
  cases op with
  | add item fresh =>
    obtain ⟨q',ys,hadd,htracks,hperm,hframe⟩ := add_tracks compare h.tracks hroom fresh hop
    exact ⟨q',_,by rw [PQueue.act,hadd]; rfl,h.enter htracks hperm hframe⟩
  | pop =>
    obtain ⟨top,htop⟩ : ∃ top, q.sl.items[0]? = some top :=
      ⟨_,List.getElem?_eq_getElem (List.length_pos_of_ne_nil hop)⟩
    obtain ⟨q',ys,hpop,htracks,hperm,hidx,hframe⟩ := pop_tracks compare h.tracks htop
    exact ⟨q',_,by rw [PQueue.act,hpop]; rfl,h.leave htracks hperm hidx hframe⟩
  | remove item =>
    obtain ⟨q',ys,hremove,htracks,hperm,hidx,hframe⟩ := remove_tracks compare h.tracks hop
    exact ⟨q',_,by rw [PQueue.act,hremove]; rfl,h.leave htracks hperm hidx hframe⟩

/-- The capacity stays one that the code allocates, and an item was added only with room. -/
theorem act_allocated {compare : α → α → ℤ} {op : Act α} {q' : PQueue α} {e : Event α}
    (ha : q.sl.Allocated) (hact : act compare q op = some (q',e)) :
    q'.sl.Allocated ∧ (q.sl.Holds q.sl.items → HasRoom q op) := by
  cases op with
  | add item fresh =>
    obtain ⟨q₁,hadd,h⟩ := Option.map_eq_some_iff.mp hact
    cases h
    obtain ⟨ha',hlt⟩ := add_allocated ha hadd
    refine ⟨ha',fun h => ?_⟩
    rw [h.used] at hlt
    exact hlt
  | pop =>
    obtain ⟨⟨q₁,top⟩,hpop,h⟩ := Option.map_eq_some_iff.mp hact
    cases h
    exact ⟨ha.of_capacity_eq (pop_capacity hpop),fun _ => trivial⟩
  | remove item =>
    obtain ⟨q₁,hremove,h⟩ := Option.map_eq_some_iff.mp hact
    cases h
    exact ⟨ha.of_capacity_eq (remove_capacity hremove),fun _ => trivial⟩

theorem Reached.exact {start : PQueue α} (hstart : start.sl.Holds []) (ha : start.sl.Allocated)
    (h : Reached start q past) : Exact q past ∧ q.sl.Allocated := by
  induction h with
  | start =>
    have hitems := hstart.items_eq
    refine ⟨⟨⟨by rwa [hitems],by rw [hitems]; exact .nil,fun i x hx => ?_⟩,fun x hx => ?_,?_⟩,ha⟩
    · rw [hitems] at hx
      cases hx
    · cases hx
    · rw [hitems]
      exact .nil
  | act _ compare op hop hact ih =>
    obtain ⟨hexact,ha⟩ := ih
    obtain ⟨ha',hroom⟩ := act_allocated ha hact
    obtain ⟨q',e,hact',hexact'⟩ := hexact.act compare hop (hroom hexact.tracks.holds)
    obtain ⟨rfl,rfl⟩ := Prod.mk.inj (Option.some.inj (hact'.symm.trans hact))
    exact ⟨hexact',ha'⟩

/-- In every queue that a run from an empty one reaches, a queued item's index field is its
position, that of an item that has left is -1, and the queue holds the items that were added and
did not leave, each once. A permitted operation succeeds exactly when it finds room. -/
theorem index_exact_iff {start : PQueue α} (hstart : start.sl.Holds []) (ha : start.sl.Allocated)
    (h : Reached start q past) :
    (∀ (i : ℕ) x, q.sl.items[i]? = some x → q.idx x = i) ∧
    (∀ x, .left x ∈ past → x ∉ queued past → q.idx x = -1) ∧
    q.sl.items.Perm (queued past) ∧ q.sl.items.Nodup ∧
    ∀ (compare : α → α → ℤ) (op : Act α), Permitted q op →
      ((∃ q' e, act compare q op = some (q',e)) ↔ HasRoom q op) := by
  obtain ⟨hexact,ha⟩ := h.exact hstart ha
  refine ⟨hexact.tracks.index,hexact.left,hexact.members,hexact.tracks.nodup,
    fun compare op hop => ⟨?_,fun hroom => ?_⟩⟩
  · rintro ⟨q',e,hact⟩
    exact (act_allocated ha hact).2 hexact.tracks.holds
  · obtain ⟨q',e,hact,-⟩ := hexact.act compare hop hroom
    exact ⟨q',e,hact⟩

end Runs

/-- Two items were added and the first of them was popped. -/
def threePopped : List (Event ℕ) := [.left 3,.added 5,.added 3]

theorem index_exact_popped : ∃ q : PQueue ℕ,
    (∀ (i : ℕ) x, q.sl.items[i]? = some x → q.idx x = i) ∧
    (∀ x, .left x ∈ threePopped → x ∉ queued threePopped → q.idx x = -1) ∧
    q.sl.items.Perm (queued threePopped) ∧ q.sl.items.Nodup ∧
    ∀ (compare : ℕ → ℕ → ℤ) (op : Act ℕ), Permitted q op →
      ((∃ q' e, act compare q op = some (q',e)) ↔ HasRoom q op) := by
  have hadd := Reached.start.act difference (.add 3 fun _ => 0)
    (show Permitted (empty 0 fun _ => 0) _ from List.not_mem_nil) rfl
  have hadd' := hadd.act difference (.add 5 fun _ => 0) (show (5 : ℕ) ∉ [3] by decide) rfl
  have hpop := hadd'.act difference .pop (show [3,5] ≠ ([] : List ℕ) by decide) rfl
  exact ⟨_,index_exact_iff (Smartlist.holds_new 0) (Smartlist.allocated_new 0) hpop⟩

/-- The items below a number were added. -/
def addedBelow : ℕ → List (Event ℕ)
  | 0 => []
  | n+1 => .added n :: addedBelow n

theorem queued_addedBelow (n : ℕ) :
    (queued (addedBelow n)).length = n ∧ ∀ x ∈ queued (addedBelow n), x < n := by
  induction n with
  | zero => exact ⟨rfl,fun x hx => by cases hx⟩
  | succ n ih =>
    obtain ⟨hlen,hlt⟩ := ih
    refine ⟨congrArg Nat.succ hlen,fun x hx => ?_⟩
    cases hx with
    | head => exact Nat.lt_succ_self n
    | tail _ hx => exact (hlt x hx).trans (Nat.lt_succ_self n)

/-- As many items as the last power of two can be added, one after the other. -/
theorem reached_addedBelow {n : ℕ} (hn : n ≤ 2^30) :
    ∃ q, Reached (empty 0 fun _ => 0) q (addedBelow n) := by
  induction n with
  | zero => exact ⟨_,.start⟩
  | succ n ih =>
    obtain ⟨q,hreached⟩ := ih (Nat.le_of_succ_le hn)
    obtain ⟨hexact,-⟩ := hreached.exact (Smartlist.holds_new 0) (Smartlist.allocated_new 0)
    obtain ⟨hlen,hlt⟩ := queued_addedBelow n
    have hop : Permitted q (.add n id) := fun hmem =>
      Nat.lt_irrefl n (hlt n (hexact.members.mem_iff.mp hmem))
    have hroom : q.sl.items.length < 2^30 := by
      rw [hexact.members.length_eq,hlen]
      exact hn
    obtain ⟨q',e,hact,-⟩ := hexact.act difference hop hroom
    obtain ⟨q₁,hadd,he⟩ := Option.map_eq_some_iff.mp hact
    cases he
    exact ⟨_,hreached.act difference _ hop hact⟩

/-- Another item overflows the capacity. -/
theorem index_exact_overfull : ∃ q : PQueue ℕ,
    Reached (empty 0 fun _ => 0) q (addedBelow 1073741824) ∧ Permitted q (.add 1073741824 id) ∧
      ∀ compare, act compare q (.add 1073741824 id) = none := by
  obtain ⟨q,hreached⟩ := reached_addedBelow (n := 1073741824) (by omega)
  obtain ⟨hexact,ha⟩ := hreached.exact (Smartlist.holds_new 0) (Smartlist.allocated_new 0)
  obtain ⟨hlen,hlt⟩ := queued_addedBelow 1073741824
  have hnot : ¬ HasRoom q (.add 1073741824 id) := by
    change ¬ q.sl.items.length < _
    rw [hexact.members.length_eq,hlen]
    omega
  refine ⟨q,hreached,fun hmem => ?_,fun compare => ?_⟩
  · exact Nat.lt_irrefl _ (hlt _ (hexact.members.mem_iff.mp hmem))
  · rw [Option.eq_none_iff_forall_ne_some]
    intro r hact
    exact hnot ((act_allocated ha hact).2 hexact.tracks.holds)

end PQueue

end WpaCliWrapper
