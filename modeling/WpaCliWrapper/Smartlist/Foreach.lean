import Mathlib.Data.List.Perm.Subperm
import Mathlib.Logic.Relation
import WpaCliWrapper.Smartlist.Operations

/-! Deleting from a smartlist in a loop over it. The body asks for a deletion at each visit or
does not, which may depend on all visits before. -/
namespace WpaCliWrapper
namespace Smartlist
variable {α : Type} [DecidableEq α]

/-- The variables of `SMARTLIST_FOREACH`, and the visits so far: the entry that the body was run
for, and whether it called `SMARTLIST_REMOVE_CUR`. -/
structure Foreach (α : Type) where
  sl : Smartlist α
  idx : ℕ
  len : ℕ
  visits : List (α × Bool)

namespace Foreach

section Loop
variable (null : α) (removes : List (α × Bool) → α → Bool)

/-- One round. After a deletion the index is stepped back before it is incremented. -/
def round (s : Foreach α) : Option (Foreach α) := do
  let var ← s.sl.get s.idx
  let curDel := removes s.visits var
  (if curDel then s.sl.remove null var else some s.sl).map fun sl =>
    ⟨sl,if curDel then s.idx else s.idx+1,sl.numUsed,s.visits ++ [(var,curDel)]⟩

def loop : ℕ → Foreach α → Option (Foreach α)
  | 0, s => if s.idx < s.len then none else some s
  | rounds+1, s => if s.idx < s.len then do loop rounds (← round null removes s) else some s

def start (sl : Smartlist α) : Foreach α := ⟨sl,0,sl.numUsed,[]⟩

/-- A round is made. -/
def GoesOn (s s' : Foreach α) : Prop := s.idx < s.len ∧ round null removes s = some s'

/-- If the visit asks for a deletion, its entry is not null, and there is no other like it. -/
def Clean (s : Foreach α) : Prop :=
  ∀ var, s.idx < s.len → s.sl.get s.idx = some var → removes s.visits var = true →
    var ≠ null ∧ s.sl.items.count var = 1

end Loop

/-- The entries whose visit did not ask for a deletion. -/
def kept (visits : List (α × Bool)) : List α := (visits.filter (!·.2)).map Prod.fst

omit [DecidableEq α] in
theorem kept_append (visits : List (α × Bool)) (var : α) (curDel : Bool) :
    kept (visits ++ [(var,curDel)]) = kept visits ++ (if curDel then [] else [var]) := by
  cases curDel <;> simp [kept]

/-- The entries of which the body was run. -/
def visited (s : Foreach α) : List α := s.visits.map Prod.fst

omit [DecidableEq α] in
theorem prefix_kept {visits visits' : List (α × Bool)} (h : visits <+: visits') :
    kept visits <+: kept visits' := (h.filter _).map _

/-- The smartlist holds entries, and its length was read. -/
structure Sound (s : Foreach α) (ys : List α) : Prop where
  holds : s.sl.Holds ys
  len : s.len = s.sl.numUsed

/-- The entries before the index are those whose visit did not ask for a deletion. -/
structure Passing (s : Foreach α) (before rest : List α) : Prop where
  sound : Sound s (before ++ rest)
  idx : s.idx = before.length
  passed : before.Perm (kept s.visits)

section Rounds
variable {null : α} {removes : List (α × Bool) → α → Bool} {s s' f : Foreach α}

theorem round_visits (h : round null removes s = some s') :
    ∃ var, s'.visits = s.visits ++ [(var,removes s.visits var)] := by
  rw [round] at h
  obtain ⟨var,-,h⟩ := Option.bind_eq_some_iff.mp h
  obtain ⟨sl,-,rfl⟩ := Option.map_eq_some_iff.mp h
  exact ⟨var,rfl⟩

/-- A loop that ends is at its end, or makes a round first. -/
theorem loop_cases {rounds : ℕ} (h : loop null removes rounds s = some f) :
    (s.len ≤ s.idx ∧ f = s) ∨ ∃ r s', rounds = r+1 ∧ s.idx < s.len ∧
      round null removes s = some s' ∧ loop null removes r s' = some f := by
  by_cases hlt : s.idx < s.len
  · cases rounds with
    | zero =>
      rw [loop,if_pos hlt] at h
      cases h
    | succ r =>
      rw [loop,if_pos hlt] at h
      obtain ⟨s',hround,hloop⟩ := Option.bind_eq_some_iff.mp h
      exact .inr ⟨r,s',rfl,hlt,hround,hloop⟩
  · have hend : loop null removes rounds s = some s := by
      cases rounds <;> exact if_neg hlt
    exact .inl ⟨Nat.le_of_not_lt hlt,Option.some.inj (h.symm.trans hend)⟩

theorem loop_visits {rounds : ℕ} (h : loop null removes rounds s = some f) :
    s.visits <+: f.visits := by
  induction rounds generalizing s with
  | zero =>
    obtain ⟨-,rfl⟩ | ⟨r,-,hr,-⟩ := loop_cases h
    · exact List.prefix_rfl
    · cases hr
  | succ rounds ih =>
    obtain ⟨-,rfl⟩ | ⟨r,s₁,hr,-,hround,hloop⟩ := loop_cases h
    · exact List.prefix_rfl
    · obtain rfl := Nat.succ.inj hr
      obtain ⟨var,hvisits⟩ := round_visits hround
      exact (hvisits ▸ List.prefix_append _ _).trans (ih hloop)

omit [DecidableEq α] in
theorem Sound.length {ys : List α} (h : Sound s ys) : s.len = ys.length := h.len.trans h.holds.used

variable (null removes) in
/-- A round visits an entry, and leaves the others. If the entry is removed, none like it is
left. -/
theorem Sound.round {ys : List α} (h : Sound s ys) {x : α} (hx : ys[s.idx]? = some x) :
    ∃ s' ys', round null removes s = some s' ∧ Sound s' ys' ∧ ys'.Subperm ys ∧
      s'.visits = s.visits ++ [(x,removes s.visits x)] ∧
      (removes s.visits x = true → x ≠ null → x ∉ ys') := by
  have hlt := (List.getElem?_eq_some_iff.mp hx).1
  have hget : s.sl.get s.idx = some x := (h.holds.get_eq hlt).trans hx
  by_cases hremove : removes s.visits x = true ∧ x ≠ null
  · obtain ⟨hdel,hnull⟩ := hremove
    obtain ⟨ys',hperm,sl',hr,hold,-⟩ := h.holds.remove hnull
    refine ⟨⟨sl',s.idx,sl'.numUsed,s.visits ++ [(x,true)]⟩,ys',?_,⟨hold,rfl⟩,
      hperm.subperm.trans List.filter_sublist.subperm,by rw [hdel],fun _ _ hmem => ?_⟩
    · simp [Foreach.round,hget,hdel,hr]
    · simpa using hperm.mem_iff.mp hmem
  · have hsame : (if removes s.visits x then s.sl.remove null x else some s.sl) = some s.sl := by
      split
      · rename_i hdel
        exact if_pos (of_not_not fun hnull => hremove ⟨hdel,hnull⟩)
      · rfl
    refine ⟨⟨s.sl,if removes s.visits x then s.idx else s.idx+1,s.sl.numUsed,
      s.visits ++ [(x,removes s.visits x)]⟩,ys,?_,⟨h.holds,rfl⟩,.refl ys,rfl,
      fun hdel hnull => absurd ⟨hdel,hnull⟩ hremove⟩
    simp only [Foreach.round,hget,Option.bind_eq_bind,Option.bind_some,hsame,Option.map_some]

/-- An entry that is not in the smartlist is neither visited nor put back. -/
theorem Sound.absent {rounds : ℕ} {ys : List α} {x : α} (h : Sound s ys) (hx : x ∉ ys)
    (hloop : loop null removes rounds s = some f) :
    x ∉ f.sl.items ∧ f.visited.count x = s.visited.count x := by
  induction rounds generalizing s ys with
  | zero =>
    obtain ⟨-,rfl⟩ | ⟨r,-,hr,-⟩ := loop_cases hloop
    · exact ⟨by rwa [h.holds.items_eq],rfl⟩
    · cases hr
  | succ rounds ih =>
    obtain ⟨-,rfl⟩ | ⟨r,s₁,hr,hlt,hround,hloop⟩ := loop_cases hloop
    · exact ⟨by rwa [h.holds.items_eq],rfl⟩
    obtain rfl := Nat.succ.inj hr
    rw [h.length] at hlt
    obtain ⟨s₂,ys₁,hround₁,h₁,hsub,hvisits,-⟩ := h.round null removes
      (List.getElem?_eq_getElem hlt)
    obtain rfl := Option.some.inj (hround₁.symm.trans hround)
    have hne : ys[s.idx] ≠ x := fun heq => hx (heq ▸ List.getElem_mem hlt)
    obtain ⟨hitems,hcount⟩ := ih h₁ (fun hmem => hx (hsub.subset hmem)) hloop
    refine ⟨hitems,hcount.trans ?_⟩
    simp [visited,hvisits,hne]

section Passing
variable {before rest : List α} {x : α} (h : Passing s before (x :: rest))
include h

omit [DecidableEq α] in
theorem Passing.next : s.idx < s.len ∧ (before ++ x :: rest)[s.idx]? = some x := by
  rw [h.sound.length,h.idx]
  simp

/-- A visit that asks for nothing passes the entry. -/
theorem Passing.pass (null : α) (hx : removes s.visits x = false) :
    ∃ s', round null removes s = some s' ∧ Passing s' (before ++ [x]) rest ∧
      s'.visits = s.visits ++ [(x,false)] := by
  have hget := (h.sound.holds.get_eq (List.getElem?_eq_some_iff.mp h.next.2).1).trans h.next.2
  refine ⟨⟨s.sl,s.idx+1,s.sl.numUsed,s.visits ++ [(x,false)]⟩,?_,⟨⟨?_,rfl⟩,?_,?_⟩,rfl⟩
  · simp [Foreach.round,hget,hx]
  · simpa using h.sound.holds
  · simp [h.idx]
  · rw [kept_append]
    exact h.passed.append_right [x]

/-- The null pointer is not removed, and is visited again. -/
theorem Passing.null_stays (hx : removes s.visits x = true) :
    ∃ s', round x removes s = some s' ∧ Passing s' before (x :: rest) ∧
      s'.visits = s.visits ++ [(x,true)] := by
  have hget := (h.sound.holds.get_eq (List.getElem?_eq_some_iff.mp h.next.2).1).trans h.next.2
  have hremove : s.sl.remove x x = some s.sl := if_pos rfl
  refine ⟨⟨s.sl,s.idx,s.sl.numUsed,s.visits ++ [(x,true)]⟩,?_,⟨⟨h.sound.holds,rfl⟩,h.idx,?_⟩,rfl⟩
  · simp [Foreach.round,hget,hx,hremove]
  · rw [kept_append]
    simpa using h.passed

/-- Another entry is removed wherever it is behind the index. -/
theorem Passing.remove {null : α} (hx : removes s.visits x = true) (hnull : x ≠ null)
    (hbefore : x ∉ before) : ∃ s' rest', round null removes s = some s' ∧
      Passing s' before rest' ∧ rest'.Perm (rest.filter (· ≠ x)) ∧
        s'.visits = s.visits ++ [(x,true)] := by
  have hget := (h.sound.holds.get_eq (List.getElem?_eq_some_iff.mp h.next.2).1).trans h.next.2
  obtain ⟨ys,hperm,⟨sl',hr,hold,-⟩,hkeep⟩ := h.sound.holds.remove_take hnull
  have htake : ys.take before.length = before := by
    rw [hkeep before.length (by rwa [List.take_left]),List.take_left]
  obtain ⟨rest',rfl⟩ : ∃ rest', ys = before ++ rest' :=
    ⟨ys.drop before.length,by conv_lhs => rw [← List.take_append_drop before.length ys,htake]⟩
  have hall : before.filter (· ≠ x) = before :=
    List.filter_eq_self.mpr fun y hy => decide_eq_true fun heq => hbefore (heq ▸ hy)
  rw [List.filter_append,hall,List.perm_append_left_iff,List.filter_cons_of_neg (by simp)] at hperm
  refine ⟨⟨sl',s.idx,sl'.numUsed,s.visits ++ [(x,true)]⟩,rest',?_,⟨⟨hold,rfl⟩,h.idx,?_⟩,hperm,rfl⟩
  · simp [Foreach.round,hget,hx,hr]
  · rw [kept_append]
    simpa using h.passed

end Passing

/-- At the end the smartlist holds the entries whose visit did not ask for a deletion. -/
def KeepsKept (f : Foreach α) : Prop := f.sl.items.Perm (kept f.visits)

section Ending
variable {before rest : List α} {x : α} {rounds : ℕ}

/-- If the loop ends so, no entry is removed that is equal to one that was kept. -/
theorem Passing.not_kept (h : Passing s before (x :: rest)) (hx : removes s.visits x = true)
    (hnull : x ≠ null) (hloop : loop null removes rounds s = some f) (hf : KeepsKept f) :
    x ∉ before ∧ f.visited.count x = s.visited.count x+1 := by
  obtain ⟨s₁,ys,hround,h₁,-,hvisits,hgone⟩ := h.sound.round null removes h.next.2
  obtain ⟨hlt,-⟩ | ⟨r,s₂,-,-,hround₂,hloop⟩ := loop_cases hloop
  · exact absurd h.next.1 hlt.not_gt
  obtain rfl := Option.some.inj (hround.symm.trans hround₂)
  obtain ⟨hitems,hcount⟩ := h₁.absent (hgone hx hnull) hloop
  constructor
  · intro hmem
    have hkept := (prefix_kept ((hvisits ▸ List.prefix_append _ _).trans
      (loop_visits hloop))).subset (h.passed.mem_iff.mp hmem)
    exact hitems (hf.mem_iff.mpr hkept)
  · rw [hcount,visited,hvisits,List.map_append,List.count_append]
    simp [visited]

omit [DecidableEq α] in
theorem Passing.rest_nil {rest : List α} (h : Passing s before rest) (hge : s.len ≤ s.idx) :
    rest = [] := by
  rw [h.sound.length,h.idx,List.length_append] at hge
  exact List.eq_nil_of_length_eq_zero (by omega)

omit [DecidableEq α] in
theorem Passing.rest_cons {rest : List α} (h : Passing s before rest) (hlt : s.idx < s.len) :
    ∃ x rest', rest = x :: rest' := by
  cases rest with
  | nil =>
    rw [h.sound.length,h.idx,List.append_nil] at hlt
    exact absurd hlt (lt_irrefl _)
  | cons x rest => exact ⟨x,rest,rfl⟩

theorem count_visited {s s' : Foreach α} {x : α} {curDel : Bool}
    (hvisits : s'.visits = s.visits ++ [(x,curDel)]) (y : α) :
    s'.visited.count y = s.visited.count y+[x].count y := by
  rw [visited,hvisits,List.map_append,List.count_append]
  rfl

/-- If the loop ends so, no null pointer is passed over. -/
theorem Passing.null_count {rest : List α} (h : Passing s before rest)
    (hloop : loop null removes rounds s = some f) (hf : KeepsKept f) :
    s.visited.count null+rest.count null ≤ f.visited.count null := by
  induction rounds generalizing s before rest with
  | zero =>
    obtain ⟨hge,rfl⟩ | ⟨r,-,hr,-⟩ := loop_cases hloop
    · rw [h.rest_nil hge]
      exact le_rfl
    · cases hr
  | succ rounds ih =>
    obtain ⟨hge,rfl⟩ | ⟨r,s₁,hr,hlt,hround,hrest⟩ := loop_cases hloop
    · rw [h.rest_nil hge]
      exact le_rfl
    obtain rfl := Nat.succ.inj hr
    obtain ⟨x,rest,rfl⟩ := h.rest_cons hlt
    have hcons : (x :: rest).count null = [x].count null+rest.count null := by
      rw [← List.singleton_append,List.count_append]
    rw [hcons]
    cases hx : removes s.visits x with
    | false =>
      obtain ⟨s₂,hround₂,h₂,hvisits⟩ := h.pass null hx
      obtain rfl := Option.some.inj (hround.symm.trans hround₂)
      have hle := ih h₂ hrest
      rw [count_visited hvisits] at hle
      omega
    | true =>
      by_cases hnull : x = null
      · subst hnull
        obtain ⟨s₂,hround₂,h₂,hvisits⟩ := h.null_stays hx
        obtain rfl := Option.some.inj (hround.symm.trans hround₂)
        have hle := ih h₂ hrest
        rw [count_visited hvisits,hcons] at hle
        omega
      · obtain ⟨hbefore,-⟩ := h.not_kept hx hnull hloop hf
        obtain ⟨s₂,rest',hround₂,h₂,hperm,hvisits⟩ := h.remove hx hnull hbefore
        obtain rfl := Option.some.inj (hround.symm.trans hround₂)
        have hle := ih h₂ hrest
        have hcount : rest'.count null = rest.count null := by
          rw [hperm.count_eq]
          exact List.count_filter (by simpa using Ne.symm hnull)
        rw [count_visited hvisits,hcount] at hle
        omega

/-- If the loop ends so, and with each entry visited once, the next visit is clean. -/
theorem Passing.clean {xs : List α} {rest : List α} (h : Passing s before rest)
    (hloop : loop null removes rounds s = some f) (hf : KeepsKept f) (hxs : f.visited.Perm xs)
    (hvisited : (s.visited ++ rest).Perm xs) : Clean null removes s := by
  intro var hlt hget hvar
  obtain ⟨x,rest,rfl⟩ := h.rest_cons hlt
  have hx := (h.sound.holds.get_eq (List.getElem?_eq_some_iff.mp h.next.2).1).trans h.next.2
  obtain rfl := Option.some.inj (hx.symm.trans hget)
  have htotal := (hxs.trans hvisited.symm).count_eq x
  rw [List.count_append,List.count_cons_self] at htotal
  have hnull : x ≠ null := by
    rintro rfl
    obtain ⟨s₁,hround,h₁,hvisits⟩ := h.null_stays hvar
    obtain ⟨hge,-⟩ | ⟨r,s₂,-,-,hround₂,hrest⟩ := loop_cases hloop
    · omega
    obtain rfl := Option.some.inj (hround.symm.trans hround₂)
    have hle := h₁.null_count hrest hf
    simp only [count_visited hvisits,List.count_cons_self,List.count_nil] at hle
    omega
  obtain ⟨hbefore,hcount⟩ := h.not_kept hvar hnull hloop hf
  refine ⟨hnull,?_⟩
  rw [h.sound.holds.items_eq,List.count_append,List.count_cons_self,
    List.count_eq_zero.mpr hbefore]
  omega

/-- A clean visit visits the next entry, and leaves those behind it to be visited. -/
theorem Passing.round_clean {rest : List α} (h : Passing s before (x :: rest))
    (hclean : Clean null removes s) : ∃ s' before' rest', round null removes s = some s' ∧
      Passing s' before' rest' ∧ rest'.Perm rest ∧ s'.visited = s.visited ++ [x] := by
  have hx := (h.sound.holds.get_eq (List.getElem?_eq_some_iff.mp h.next.2).1).trans h.next.2
  cases hvar : removes s.visits x with
  | false =>
    obtain ⟨s',hround,h',hvisits⟩ := h.pass null hvar
    exact ⟨s',_,_,hround,h',.refl _,by simp [visited,hvisits]⟩
  | true =>
    obtain ⟨hnull,hone⟩ := hclean x h.next.1 hx hvar
    rw [h.sound.holds.items_eq,List.count_append,List.count_cons_self] at hone
    have hbefore : x ∉ before := List.count_eq_zero.mp (by omega)
    have hrest : x ∉ rest := List.count_eq_zero.mp (by omega)
    obtain ⟨s',rest',hround,h',hperm,hvisits⟩ := h.remove hvar hnull hbefore
    have hall : rest.filter (· ≠ x) = rest :=
      List.filter_eq_self.mpr fun y hy => decide_eq_true fun heq => hrest (heq ▸ hy)
    exact ⟨s',_,_,hround,h',hall ▸ hperm,by simp [visited,hvisits]⟩

omit [DecidableEq α] in
theorem Passing.ending {rest : List α} (h : Passing s before rest) (hge : s.len ≤ s.idx) :
    KeepsKept s ∧ s.visited.Perm (s.visited ++ rest) := by
  obtain rfl := h.rest_nil hge
  refine ⟨?_,by rw [List.append_nil]⟩
  rw [KeepsKept,h.sound.holds.items_eq,List.append_nil]
  exact h.passed

/-- A run of clean visits ends, and has visited each entry once. -/
theorem Passing.loop_clean {rest : List α} (h : Passing s before rest)
    (hrounds : rest.length ≤ rounds)
    (hclean : ∀ t, Relation.ReflTransGen (GoesOn null removes) s t → Clean null removes t) :
    ∃ f, loop null removes rounds s = some f ∧ KeepsKept f ∧
      f.visited.Perm (s.visited ++ rest) := by
  induction rounds generalizing s before rest with
  | zero =>
    obtain rfl := List.eq_nil_of_length_eq_zero (Nat.le_zero.mp hrounds)
    have hge : s.len ≤ s.idx := by rw [h.sound.length,h.idx,List.append_nil]
    exact ⟨s,if_neg hge.not_gt,h.ending hge⟩
  | succ rounds ih =>
    by_cases hlt : s.idx < s.len
    · obtain ⟨x,rest,rfl⟩ := h.rest_cons hlt
      obtain ⟨s₁,before₁,rest₁,hround,h₁,hperm,hvisited⟩ := h.round_clean (hclean s .refl)
      rw [List.length_cons,Nat.add_le_add_iff_right,← hperm.length_eq] at hrounds
      obtain ⟨f,hloop,hkeeps,hf⟩ := ih h₁ hrounds fun t ht => hclean t (.head ⟨hlt,hround⟩ ht)
      refine ⟨f,?_,hkeeps,hf.trans ?_⟩
      · rw [loop,if_pos hlt,hround]
        exact hloop
      · rw [hvisited,List.append_assoc]
        exact (hperm.cons x).append_left s.visited
    · exact ⟨s,if_neg hlt,h.ending (Nat.le_of_not_lt hlt)⟩

end Ending

section Main
variable {sl : Smartlist α} {xs : List α} (h : sl.Holds xs) (null : α)
  (removes : List (α × Bool) → α → Bool)
include h

omit [DecidableEq α] in
theorem passing_start : Passing (start sl) [] xs := ⟨⟨h,rfl⟩,rfl,.nil⟩

/-- The loop ends after one visit of each entry, with the entries whose visit did not ask for a
deletion, if and only if each entry that is to be deleted is not null and occurs once then. -/
theorem foreach_iff :
    (∃ rounds f, loop null removes rounds (start sl) = some f ∧ f.visited.Perm xs ∧
      f.sl.items.Perm (kept f.visits)) ↔
      ∀ s, Relation.ReflTransGen (GoesOn null removes) (start sl) s → Clean null removes s := by
  constructor
  · rintro ⟨rounds,f,hloop,hxs,hf⟩ s hs
    -- every state that is reached still ends so, and has the unvisited entries behind its index
    suffices hinv : ∃ rounds before rest, Passing s before rest ∧
        loop null removes rounds s = some f ∧ (s.visited ++ rest).Perm xs by
      obtain ⟨rounds,before,rest,hpassing,hloop,hvisited⟩ := hinv
      exact hpassing.clean hloop hf hxs hvisited
    induction hs with
    | refl => exact ⟨rounds,[],xs,passing_start h,hloop,.refl _⟩
    | tail _ hstep ih =>
      obtain ⟨rounds,before,rest,hpassing,hloop,hvisited⟩ := ih
      obtain ⟨hlt,hround⟩ := hstep
      have hclean := hpassing.clean hloop hf hxs hvisited
      obtain ⟨x,rest,rfl⟩ := hpassing.rest_cons hlt
      obtain ⟨s₁,before₁,rest₁,hround₁,h₁,hperm,hvisited₁⟩ := hpassing.round_clean hclean
      obtain rfl := Option.some.inj (hround₁.symm.trans hround)
      obtain ⟨hge,-⟩ | ⟨r,s₂,-,-,hround₂,hrest⟩ := loop_cases hloop
      · exact absurd hlt hge.not_gt
      obtain rfl := Option.some.inj (hround₁.symm.trans hround₂)
      refine ⟨r,before₁,rest₁,h₁,hrest,?_⟩
      rw [hvisited₁,List.append_assoc]
      exact ((hperm.cons x).append_left _).trans hvisited
  · intro hclean
    obtain ⟨f,hloop,hkeeps,hf⟩ := (passing_start h).loop_clean le_rfl hclean
    exact ⟨_,f,hloop,hf,hkeeps⟩

omit h in
/-- Entries that differ, none of them null, may be deleted at any visit. -/
theorem clean_of_nodup (hnodup : xs.Nodup) (hnull : null ∉ xs) (h : sl.Holds xs) {s : Foreach α}
    (hs : Relation.ReflTransGen (GoesOn null removes) (start sl) s) : Clean null removes s := by
  have hinv : ∃ ys, Sound s ys ∧ ys.Subperm xs := by
    induction hs with
    | refl => exact ⟨xs,⟨h,rfl⟩,.refl xs⟩
    | tail _ hstep ih =>
      obtain ⟨ys,hsound,hsub⟩ := ih
      obtain ⟨hlt,hround⟩ := hstep
      rw [hsound.length] at hlt
      obtain ⟨s₁,ys₁,hround₁,h₁,hsub₁,-⟩ := hsound.round null removes
        (List.getElem?_eq_getElem hlt)
      obtain rfl := Option.some.inj (hround₁.symm.trans hround)
      exact ⟨ys₁,h₁,hsub₁.trans hsub⟩
  obtain ⟨ys,hsound,hsub⟩ := hinv
  intro var hlt hget _
  rw [hsound.length] at hlt
  rw [hsound.holds.get_eq hlt] at hget
  have hmem := List.mem_of_getElem? hget
  refine ⟨fun heq => hnull (heq ▸ hsub.subset hmem),?_⟩
  rw [hsound.holds.items_eq]
  have hle := (hsub.count_le var).trans (List.nodup_iff_count.mp hnodup var)
  have hpos := List.count_pos_iff.mpr hmem
  omega

end Main

theorem foreach_deletes_two : ∃ rounds f,
    loop 0 (fun _ x => x == 2) rounds (start ⟨[1,2,3],3,3⟩) = some f ∧ f.visited.Perm [1,2,3] ∧
      f.sl.items.Perm (kept f.visits) :=
  have hold : Holds ⟨[1,2,3],3,3⟩ [1,2,3] := ⟨⟨[],rfl⟩,rfl,rfl,by decide⟩
  (foreach_iff hold 0 fun _ x => x == 2).mpr fun _ =>
    clean_of_nodup 0 (fun _ x => x == 2) (by decide) (by decide) hold

/-- Two equal entries are removed at the visit of the first, and the second is not visited. -/
theorem foreach_misses_equal : ¬ ∃ rounds f,
    loop 0 (fun _ _ => true) rounds (start ⟨[1,1],2,2⟩) = some f ∧ f.visited.Perm [1,1] ∧
      f.sl.items.Perm (kept f.visits) := by
  rintro ⟨rounds,f,hloop,hvisited,-⟩
  have hone : f.visited = [1] := by
    cases rounds with
    | zero => cases hloop
    | succ rounds =>
      have hend : loop 0 (fun _ _ => true) (rounds+1) (start ⟨[1,1],2,2⟩) =
          some ⟨⟨[1,1],0,2⟩,0,0,[(1,true)]⟩ := by cases rounds <;> rfl
      obtain rfl := Option.some.inj (hend.symm.trans hloop)
      rfl
  rw [hone] at hvisited
  exact absurd hvisited.length_eq (by decide)

end Rounds

end Foreach

end Smartlist

end WpaCliWrapper
