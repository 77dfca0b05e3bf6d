import Mathlib.Data.List.Nodup

/-! Assignments to the parts of a state, one after another. An assignment leaves every part alone
that it does not name, so that assignments to different parts do not meet. -/
namespace Exchange

/-- A state with parts: `same i` says that two states agree on part `i`. -/
structure Assignments (σ ι V : Type*) where
  assign : σ → ι × V → σ
  same : ι → σ → σ → Prop
  refl : ∀ i s, same i s s
  trans : ∀ {i s t u}, same i s t → same i t u → same i s u
  frame : ∀ {i s l}, l.1 ≠ i → same i (assign s l) s

namespace Assignments
variable {σ ι V : Type*} (A : Assignments σ ι V)

def all (s : σ) (ls : List (ι × V)) : σ := ls.foldl A.assign s

variable {A}

theorem untouched {i : ι} {ls : List (ι × V)} (h : i ∉ ls.map Prod.fst) (s : σ) :
    A.same i (A.all s ls) s := by
  induction ls generalizing s with
  | nil => exact A.refl i s
  | cons l ls ih =>
    rw [List.map_cons,List.mem_cons,not_or] at h
    exact A.trans (ih h.2 (A.assign s l)) (A.frame (Ne.symm h.1))

/-- A part has the value that its assignment gave it, and that assignment found the part as it was
at first. -/
theorem assigned {ls : List (ι × V)} (hnodup : (ls.map Prod.fst).Nodup) {l : ι × V} (hl : l ∈ ls)
    (s : σ) : ∃ t, A.same l.1 t s ∧ A.same l.1 (A.all s ls) (A.assign t l) := by
  induction ls generalizing s with
  | nil => cases hl
  | cons k ls ih =>
    obtain ⟨hk,hls⟩ := List.nodup_cons.mp hnodup
    rcases List.mem_cons.mp hl with rfl | hl
    · exact ⟨s,A.refl _ s,untouched hk (A.assign s l)⟩
    · obtain ⟨t,ht,hall⟩ := ih hls hl (A.assign s k)
      have hne : k.1 ≠ l.1 := fun heq => hk (heq ▸ List.mem_map_of_mem hl)
      exact ⟨t,A.trans ht (A.frame hne),hall⟩

end Assignments

end Exchange
