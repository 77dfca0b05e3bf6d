import Mathlib.Data.List.Nodup

/-! A table whose changes are announced one by one, and a list of keys kept by an observer who hears
nothing but the keys. Entries have identities of their own, and may share a key. -/
namespace Exchange

/-- A change of the table. -/
inductive Change (ε : Type*) where
  | added (e : ε)
  | removed (e : ε)

namespace Change
variable {ε ι κ : Type*} [DecidableEq ι] [BEq κ] (ident : ε → ι) (key : ε → κ)

/-- The table after a change. -/
def apply (table : List ε) : Change ε → List ε
  | .added e => table ++ [e]
  | .removed e => table.filter fun x => ident x ≠ ident e

/-- A new entry has a new identity, and only an entry that is there is removed. -/
def Possible (table : List ε) : Change ε → Prop
  | .added e => ∀ x ∈ table, ident x ≠ ident e
  | .removed e => e ∈ table

def PossibleRun (table : List ε) : List (Change ε) → Prop
  | [] => True
  | c :: cs => c.Possible ident table ∧ PossibleRun (c.apply ident table) cs

def after (table : List ε) (cs : List (Change ε)) : List ε := cs.foldl (apply ident) table

theorem after_append (table : List ε) (cs : List (Change ε)) (c : Change ε) :
    after ident table (cs ++ [c]) = c.apply ident (after ident table cs) := List.foldl_concat ..

theorem possibleRun_append {table : List ε} {cs : List (Change ε)} {c : Change ε} :
    PossibleRun ident table (cs ++ [c]) ↔
      PossibleRun ident table cs ∧ c.Possible ident (after ident table cs) := by
  induction cs generalizing table with
  | nil => exact and_comm
  | cons d cs ih =>
    change _ ∧ PossibleRun ident _ (cs ++ [c]) ↔ (_ ∧ PossibleRun ident _ cs) ∧ _
    rw [ih,and_assoc]
    rfl

/-- What the observer does with the key of a change. -/
def hear (keys : List κ) : Change ε → List κ
  | .added e => keys.insert (key e)
  | .removed e => keys.erase (key e)

def heard (keys : List κ) (cs : List (Change ε)) : List κ := cs.foldl (hear key) keys

/-- An entry is known by its identity. -/
def Distinct (table : List ε) : Prop := ∀ x ∈ table, ∀ y ∈ table, ident x = ident y → x = y

/-- The list has the keys of the table, each once. -/
structure Mirrors (keys : List κ) (table : List ε) : Prop where
  nodup : keys.Nodup
  mem : ∀ k, k ∈ keys ↔ ∃ e ∈ table, key e = k

/-- No other entry has the key of the one that is removed. -/
def Sole (table : List ε) : Change ε → Prop
  | .added _ => True
  | .removed e => ∀ x ∈ table, key x = key e → ident x = ident e

section Step
variable {ident key} {table : List ε} {keys : List κ}

theorem Distinct.apply (h : Distinct ident table) {c : Change ε} (hc : c.Possible ident table) :
    Distinct ident (c.apply ident table) := by
  cases c with
  | added e =>
    intro x hx y hy hxy
    rcases List.mem_append.mp hx with hx | hx
    · rcases List.mem_append.mp hy with hy | hy
      · exact h x hx y hy hxy
      · rw [List.mem_singleton.mp hy] at hxy
        exact absurd hxy (hc x hx)
    · rcases List.mem_append.mp hy with hy | hy
      · rw [List.mem_singleton.mp hx] at hxy
        exact absurd hxy.symm (hc y hy)
      · rw [List.mem_singleton.mp hx,List.mem_singleton.mp hy]
  | removed e =>
    intro x hx y hy hxy
    exact h x (List.mem_of_mem_filter hx) y (List.mem_of_mem_filter hy) hxy

variable [LawfulBEq κ]

/-- A list that mirrors the table still does after a change, exactly if the change is not the removal
of an entry whose key is left. -/
theorem Mirrors.hear_iff (h : Mirrors key keys table) (hd : Distinct ident table) {c : Change ε}
    (hc : c.Possible ident table) :
    Mirrors key (c.hear key keys) (c.apply ident table) ↔ c.Sole ident key table := by
  cases c with
  | added e =>
    refine iff_of_true ⟨h.nodup.insert,fun k => ?_⟩ trivial
    change k ∈ keys.insert (key e) ↔ ∃ x ∈ table ++ [e], key x = k
    rw [List.mem_insert_iff,h.mem]
    constructor
    · rintro (rfl | ⟨x,hx,hk⟩)
      · exact ⟨e,List.mem_append_right _ (List.mem_singleton.mpr rfl),rfl⟩
      · exact ⟨x,List.mem_append_left _ hx,hk⟩
    · rintro ⟨x,hx,rfl⟩
      rcases List.mem_append.mp hx with hx | hx
      · exact .inr ⟨x,hx,rfl⟩
      · rw [List.mem_singleton.mp hx]
        exact .inl rfl
  | removed e =>
    have hrest : ∀ x, x ∈ table.filter (fun x => ident x ≠ ident e) ↔
        x ∈ table ∧ ident x ≠ ident e := fun x => by
      rw [List.mem_filter,decide_eq_true_eq]
    constructor
    · intro h' x hx hk
      by_contra hid
      -- the key was taken out with the entry, and the other entry still has it
      have hmem := (h'.mem (key e)).mpr ⟨x,(hrest x).mpr ⟨hx,hid⟩,hk⟩
      exact h.nodup.not_mem_erase hmem
    · intro hsole
      refine ⟨h.nodup.erase _,fun k => ?_⟩
      change k ∈ keys.erase (key e) ↔ ∃ x ∈ table.filter _, key x = k
      rw [h.nodup.mem_erase_iff,h.mem]
      constructor
      · rintro ⟨hne,x,hx,rfl⟩
        refine ⟨x,(hrest x).mpr ⟨hx,fun hid => hne ?_⟩,rfl⟩
        rw [hd x hx e hc hid]
      · rintro ⟨x,hx,rfl⟩
        obtain ⟨hx,hid⟩ := (hrest x).mp hx
        exact ⟨fun hk => hid (hsole x hx hk),x,hx,rfl⟩

end Step

section Run
variable {ident key} [LawfulBEq κ]

/-- A list mirrors the table all the time, exactly if no entry is removed while another one has its
key. -/
theorem mirrors_run_iff {table : List ε} {keys : List κ} {cs : List (Change ε)}
    (h : Mirrors key keys table) (hd : Distinct ident table) (hrun : PossibleRun ident table cs) :
    (∀ n : ℕ, Mirrors key (heard key keys (cs.take n)) (after ident table (cs.take n))) ↔
      ∀ (n : ℕ) (c : Change ε), cs[n]? = some c → c.Sole ident key (after ident table (cs.take n)) := by
  induction cs generalizing table keys with
  | nil => exact iff_of_true (fun n => by rw [List.take_nil]; exact h) (by simp)
  | cons c cs ih =>
    obtain ⟨hc,hrun⟩ := hrun
    have hstep := h.hear_iff hd hc
    constructor
    · intro hall
      have hsole := hstep.mp (hall 1)
      have htail := (ih (hstep.mpr hsole) (hd.apply hc) hrun).mp fun n => hall (n+1)
      intro n c' hn
      cases n with
      | zero =>
        cases hn
        exact hsole
      | succ n => exact htail n c' hn
    · intro hsole
      have htail := (ih (hstep.mpr (hsole 0 c rfl)) (hd.apply hc) hrun).mpr fun n c' hn =>
        hsole (n+1) c' hn
      intro n
      cases n with
      | zero => exact h
      | succ n => exact htail n

end Run

end Change

end Exchange
