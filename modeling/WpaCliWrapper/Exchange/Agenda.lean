import Mathlib.Data.List.Perm.Basic
import Mathlib.Data.List.Induction
import Mathlib.Data.Prod.Lex

/-! Things to do, each at its time. They wait in the order of their times, and those of one time in
the order in which they came. -/

namespace WpaCliWrapper

/-- What happens to a thing to do. -/
inductive AgendaEvent (α τ : Type)
  | added (x : α)
  | dropped (x : α)
  | ran (x : α) (now : τ)

/-- The things that wait, and what happened so far. -/
structure Agenda (α τ : Type) where
  pending : List α
  log : List (AgendaEvent α τ)

namespace Agenda

section Logs
variable {α τ : Type}

/-- The things that came, in the order in which they came. -/
def added (log : List (AgendaEvent α τ)) : List α := log.filterMap fun
  | .added x => some x
  | .dropped _ | .ran _ _ => none

/-- The things that are over. -/
def gone (log : List (AgendaEvent α τ)) : List α := log.filterMap fun
  | .added _ => none
  | .dropped x | .ran x _ => some x

@[simp] theorem added_append (l m : List (AgendaEvent α τ)) : added (l ++ m) = added l ++ added m :=
  List.filterMap_append

@[simp] theorem gone_append (l m : List (AgendaEvent α τ)) : gone (l ++ m) = gone l ++ gone m :=
  List.filterMap_append

@[simp] theorem added_dropped (g : List α) : added (τ := τ) (g.map .dropped) = [] := by
  induction g with
  | nil => rfl
  | cons x g ih => exact ih

@[simp] theorem gone_dropped (g : List α) : gone (τ := τ) (g.map .dropped) = g := by
  induction g with
  | nil => rfl
  | cons x g ih => exact congrArg (x :: ·) ih

theorem ran_prefix_dropped {g : List α} {l m : List (AgendaEvent α τ)} {x : α} {now : τ}
    (h : l ++ [.ran x now] <+: m ++ g.map .dropped) : l ++ [.ran x now] <+: m := by
  induction g using List.reverseRecOn with
  | nil => rwa [List.map_nil,List.append_nil] at h
  | append_singleton g y ih =>
    rw [List.map_append,List.map_singleton,← List.append_assoc,List.prefix_concat_iff] at h
    rcases h with h | h
    · cases (List.append_inj' h rfl).2
    · exact ih h

end Logs

variable {α τ : Type} [LinearOrder τ] (due : α → τ) (serial : α → ℕ)

/-- The place of a new thing is in front of the first one that is due later. -/
def insert (x : α) : List α → List α
  | [] => [x]
  | y :: l => if due x < due y then x :: y :: l else y :: insert x l

/-- A thing comes before another one when it is due sooner, or at the same time but was there
first. -/
def rank (x : α) : τ ×ₗ ℕ := toLex (due x,serial x)

/-- The log tells what became of every thing, and that it happened in order. -/
structure Valid (a : Agenda α τ) : Prop where
  sorted : a.pending.Pairwise (rank due serial · < rank due serial ·)
  kept : (added a.log).Perm (a.pending ++ gone a.log)
  serials : (added a.log).Pairwise (serial · < serial ·)
  timely : ∀ x now, .ran x now ∈ a.log → due x ≤ now
  ordered : ∀ log x now, log ++ [.ran x now] <+: a.log →
    ∀ y ∈ added log, rank due serial y < rank due serial x → y ∈ gone log

def add (x : α) (a : Agenda α τ) : Agenda α τ :=
  ⟨insert due x a.pending,a.log ++ [.added x]⟩

/-- The first thing is done if it is due. -/
def run (now : τ) (a : Agenda α τ) : Agenda α τ :=
  match a.pending with
  | [] => a
  | x :: l => if due x ≤ now then ⟨l,a.log ++ [.ran x now]⟩ else a

/-- Some things are dropped. -/
structure Drops (g : List α) (a b : Agenda α τ) : Prop where
  sublist : b.pending.Sublist a.pending
  perm : a.pending.Perm (b.pending ++ g)
  log : b.log = a.log ++ g.map .dropped

variable {due serial}

theorem rank_lt_iff {x y : α} : rank due serial x < rank due serial y ↔
    due x < due y ∨ due x = due y ∧ serial x < serial y := Prod.Lex.toLex_lt_toLex

theorem due_le_of_rank {x y : α} (h : rank due serial x < rank due serial y) : due x ≤ due y :=
  (rank_lt_iff.mp h).elim le_of_lt fun heq => heq.1.le

theorem insert_perm (x : α) (l : List α) : (insert due x l).Perm (x :: l) := by
  induction l with
  | nil => exact .refl _
  | cons y l ih =>
    rw [insert]
    split
    · exact .refl _
    · exact (ih.cons y).trans (.swap x y l)

/-- What stands in front of the new thing is not due later, and what stands behind it is. -/
theorem insert_split (x : α) {l : List α} (h : l.Pairwise (due · ≤ due ·)) : ∃ d t, l = d ++ t ∧
    insert due x l = d ++ x :: t ∧ (∀ y ∈ d, due y ≤ due x) ∧ ∀ y ∈ t, due x < due y := by
  induction l with
  | nil => exact ⟨[],[],rfl,rfl,fun y hy => absurd hy List.not_mem_nil,
      fun y hy => absurd hy List.not_mem_nil⟩
  | cons z l ih =>
    rw [List.pairwise_cons] at h
    rw [insert]
    split
    · rename_i hlt
      refine ⟨[],z :: l,rfl,rfl,fun y hy => absurd hy List.not_mem_nil,fun y hy => ?_⟩
      rcases List.mem_cons.mp hy with rfl | hy
      · exact hlt
      · exact hlt.trans_le (h.1 y hy)
    · rename_i hle
      obtain ⟨d,t,hl,hinsert,hd,ht⟩ := ih h.2
      refine ⟨z :: d,t,congrArg (z :: ·) hl,congrArg (z :: ·) hinsert,fun y hy => ?_,ht⟩
      rcases List.mem_cons.mp hy with rfl | hy
      · exact not_lt.mp hle
      · exact hd y hy

namespace Valid
variable {a b : Agenda α τ}

theorem dues (h : Valid due serial a) : a.pending.Pairwise (due · ≤ due ·) :=
  h.sorted.imp due_le_of_rank

theorem mem_added (h : Valid due serial a) {x : α} (hx : x ∈ a.pending) : x ∈ added a.log :=
  h.kept.mem_iff.mpr (List.mem_append_left _ hx)

theorem empty : Valid due serial (⟨[],[]⟩ : Agenda α τ) where
  sorted := .nil
  kept := .refl _
  serials := .nil
  timely _ _ h := absurd h List.not_mem_nil
  ordered _ _ _ h := by
    rw [List.prefix_nil] at h
    exact absurd h (by simp)

theorem add (h : Valid due serial a) {x : α} (hnew : ∀ y ∈ added a.log, serial y < serial x) :
    Valid due serial (a.add due x) := by
  obtain ⟨d,t,hsplit,hinsert,hd,ht⟩ := insert_split x h.dues
  have hlater : ∀ y ∈ d, rank due serial y < rank due serial x := fun y hy => by
    have hmem := h.mem_added (hsplit ▸ List.mem_append_left t hy)
    exact rank_lt_iff.mpr ((hd y hy).lt_or_eq.imp id fun heq => ⟨heq,hnew y hmem⟩)
  refine ⟨?_,?_,?_,?_,?_⟩
  · change (insert due x a.pending).Pairwise _
    have hsorted := h.sorted
    rw [hsplit,List.pairwise_append] at hsorted
    rw [hinsert,List.pairwise_append,List.pairwise_cons]
    refine ⟨hsorted.1,⟨fun y hy => rank_lt_iff.mpr (.inl (ht y hy)),hsorted.2.1⟩,fun y hy z hz => ?_⟩
    rcases List.mem_cons.mp hz with rfl | hz
    · exact hlater y hy
    · exact hsorted.2.2 y hy z hz
  · change (added (a.log ++ [.added x])).Perm (insert due x a.pending ++ gone (a.log ++ [.added x]))
    rw [added_append,gone_append]
    have hlast : (added a.log ++ [x]).Perm (x :: (a.pending ++ gone a.log)) :=
      (List.perm_append_singleton _ _).trans (h.kept.cons x)
    simpa [added,gone] using hlast.trans ((insert_perm x a.pending).symm.append_right _)
  · change (added (a.log ++ [.added x])).Pairwise _
    rw [added_append,List.pairwise_append]
    refine ⟨h.serials,List.pairwise_singleton _ _,fun y hy z hz => ?_⟩
    rw [List.mem_singleton.mp hz]
    exact hnew y hy
  · intro y now hy
    rcases List.mem_append.mp hy with hy | hy
    · exact h.timely y now hy
    · cases List.mem_singleton.mp hy
  · intro log y now hpre
    rcases List.prefix_concat_iff.mp hpre with heq | hpre
    · cases (List.append_inj' heq rfl).2
    · exact h.ordered log y now hpre

theorem drops (h : Valid due serial a) {g : List α} (hdrops : Drops g a b) :
    Valid due serial b := by
  have hadded : added b.log = added a.log := by
    rw [hdrops.log,added_append,added_dropped,List.append_nil]
  refine ⟨h.sorted.sublist hdrops.sublist,?_,hadded ▸ h.serials,?_,?_⟩
  · rw [hadded,hdrops.log,gone_append,gone_dropped]
    refine h.kept.trans ((hdrops.perm.append_right _).trans ?_)
    rw [List.append_assoc]
    exact List.perm_append_comm.append_left _
  · intro x now hx
    rw [hdrops.log] at hx
    rcases List.mem_append.mp hx with hx | hx
    · exact h.timely x now hx
    · obtain ⟨y,-,hy⟩ := List.mem_map.mp hx
      cases hy
  · intro log x now hpre
    rw [hdrops.log] at hpre
    exact h.ordered log x now (ran_prefix_dropped hpre)

theorem run (h : Valid due serial a) (now : τ) : Valid due serial (a.run due now) := by
  rw [Agenda.run]
  split
  · exact h
  rename_i x l hpending
  split
  on_goal 2 => exact h
  rename_i hdue
  have hsorted := h.sorted
  rw [hpending,List.pairwise_cons] at hsorted
  have hkept := h.kept
  rw [hpending] at hkept
  refine ⟨hsorted.2,?_,?_,?_,?_⟩
  · change (added (a.log ++ [.ran x now])).Perm (l ++ gone (a.log ++ [.ran x now]))
    rw [added_append,gone_append,← List.append_assoc]
    simpa [added,gone] using hkept.trans (List.perm_append_singleton x (l ++ gone a.log)).symm
  · change (added (a.log ++ [.ran x now])).Pairwise _
    rw [added_append]
    simpa [added] using h.serials
  · intro y at' hy
    rcases List.mem_append.mp hy with hy | hy
    · exact h.timely y at' hy
    · cases List.mem_singleton.mp hy
      exact hdue
  · intro log y at' hpre z hz hlt
    rcases List.prefix_concat_iff.mp hpre with heq | hpre
    · obtain ⟨rfl,hlast⟩ := List.append_inj' heq rfl
      cases hlast
      -- what is still there does not come before the first one
      rcases List.mem_append.mp (hkept.mem_iff.mp hz) with hmem | hmem
      · rcases List.mem_cons.mp hmem with rfl | hmem
        · exact absurd hlt (lt_irrefl _)
        · exact absurd hlt (hsorted.1 z hmem).asymm
      · exact hmem
    · exact h.ordered log y at' hpre z hz hlt

end Valid

section Progress
variable {a b : Agenda α τ} {x : α}

/-- How many things come before one. -/
def ahead (due : α → τ) (serial : α → ℕ) (x : α) (a : Agenda α τ) : ℕ :=
  a.pending.countP (rank due serial · < rank due serial x)

theorem ahead_le (h : Valid due serial a) {d l : List α} (hsplit : a.pending = d ++ x :: l) :
    ahead due serial x a ≤ d.length := by
  have hsorted := h.sorted
  rw [hsplit,List.pairwise_append,List.pairwise_cons] at hsorted
  have hnone : (x :: l).countP (rank due serial · < rank due serial x) = 0 := by
    rw [List.countP_eq_zero]
    intro y hy
    rw [decide_eq_true_iff]
    rcases List.mem_cons.mp hy with rfl | hy
    · exact lt_irrefl _
    · exact (hsorted.2.1.1 y hy).asymm
  rw [ahead,hsplit,List.countP_append,hnone]
  exact List.countP_le_length

theorem ahead_add {y : α} (h : due x ≤ due y) (hserial : serial x < serial y) :
    ahead due serial x (a.add due y) = ahead due serial x a := by
  have hlt : rank due serial x < rank due serial y :=
    rank_lt_iff.mpr (h.lt_or_eq.imp id fun heq => ⟨heq,hserial⟩)
  rw [ahead,add,(insert_perm y a.pending).countP_eq,List.countP_cons_of_neg]
  · rfl
  · rw [decide_eq_true_iff]
    exact hlt.asymm

theorem ahead_drops {g : List α} (h : Drops g a b) : ahead due serial x b ≤ ahead due serial x a :=
  h.sublist.countP_le

/-- A thing that is over, or that waits behind few others after a number of rounds. -/
def Waits (due : α → τ) (serial : α → ℕ) (x : α) (rounds bound : ℕ) (a : Agenda α τ) : Prop :=
  x ∈ gone a.log ∨ x ∈ a.pending ∧ ahead due serial x a+rounds ≤ bound

variable {rounds bound : ℕ}

theorem Waits.add (h : Waits due serial x rounds bound a) {y : α} (hdue : due x ≤ due y)
    (ha : Valid due serial a) (hnew : ∀ z ∈ added a.log, serial z < serial y) :
    Waits due serial x rounds bound (a.add due y) := by
  refine h.imp (fun h => ?_) fun ⟨hx,hle⟩ => ⟨?_,?_⟩
  · change x ∈ gone (a.log ++ [.added y])
    rw [gone_append]
    exact List.mem_append_left _ h
  · exact (insert_perm y a.pending).mem_iff.mpr (List.mem_cons_of_mem y hx)
  · rwa [ahead_add hdue (hnew x (ha.mem_added hx))]

theorem Waits.drops (h : Waits due serial x rounds bound a) {g : List α} (hdrops : Drops g a b) :
    Waits due serial x rounds bound b := by
  rw [Waits,hdrops.log,gone_append,gone_dropped,List.mem_append]
  rcases h with h | ⟨hx,hle⟩
  · exact .inl (.inl h)
  · rcases List.mem_append.mp (hdrops.perm.mem_iff.mp hx) with hx | hx
    · exact .inr ⟨hx,(Nat.add_le_add_right (ahead_drops hdrops) rounds).trans hle⟩
    · exact .inl (.inr hx)

/-- When a thing is due, it is done or one of those before it is. -/
theorem Waits.run (h : Waits due serial x rounds bound a) (ha : Valid due serial a) {now : τ}
    (hdue : due x ≤ now) : Waits due serial x (rounds+1) bound (a.run due now) := by
  rw [Agenda.run]
  have hsorted := ha.sorted
  cases hpending : a.pending with
  | nil =>
    rcases h with h | ⟨hx,-⟩
    · exact .inl h
    · exact absurd (hpending ▸ hx) List.not_mem_nil
  | cons y l =>
    rw [hpending,List.pairwise_cons] at hsorted
    rcases h with h | ⟨hx,hle⟩
    · refine .inl ?_
      change x ∈ gone (if due y ≤ now then _ else a : Agenda α τ).log
      split
      · rw [gone_append]
        exact List.mem_append_left _ h
      · exact h
    · rw [hpending] at hx
      rcases List.mem_cons.mp hx with rfl | hx
      · exact .inl (by simp [hdue,gone])
      · have hlt := hsorted.1 x hx
        have hhead : ahead due serial x a = ahead due serial x ⟨l,a.log⟩+1 := by
          rw [ahead,hpending,List.countP_cons_of_pos]
          · rfl
          · rwa [decide_eq_true_iff]
        rw [hhead] at hle
        simp only [(due_le_of_rank hlt).trans hdue,if_true]
        exact .inr ⟨hx,by rw [Nat.add_right_comm] at hle; exact hle⟩

end Progress

end Agenda

end WpaCliWrapper
