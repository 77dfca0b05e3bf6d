import Mathlib.Data.List.Nodup
import Mathlib.Data.List.Perm.Basic

/-! Lists of records that are known by a key: what is found, removed and renamed by it. -/
namespace Exchange
namespace Keyed
variable {α κ : Type*} [DecidableEq κ] {key : α → κ} {l : List α} {x y : α} {k : κ}

theorem map_eraseP (l : List α) (k : κ) : (l.eraseP (key · = k)).map key = (l.map key).erase k := by
  rw [List.erase_eq_eraseP',List.eraseP_map]
  refine congrArg _ (congrArg (fun p => l.eraseP p) (funext fun z => ?_))
  rw [Function.comp,Bool.eq_iff_iff,decide_eq_true_iff,beq_iff_eq]

theorem length_eraseP (h : k ∈ l.map key) : (l.eraseP (key · = k)).length+1 = l.length := by
  have hlen : ((l.eraseP (key · = k)).map key).length = ((l.map key).erase k).length :=
    congrArg List.length (map_eraseP l k)
  have hpos := List.length_pos_of_mem h
  rw [List.length_map] at hpos
  rw [List.length_map,List.length_erase_of_mem h,List.length_map] at hlen
  omega

/-- Only the record with the key is gone. -/
theorem mem_eraseP (h : (l.map key).Nodup) : y ∈ l.eraseP (key · = k) ↔ y ∈ l ∧ key y ≠ k := by
  induction l with
  | nil => simp
  | cons z l ih =>
    obtain ⟨hz,hl⟩ := List.nodup_cons.mp h
    by_cases hk : key z = k
    · rw [List.eraseP_cons_of_pos (by simpa using hk),List.mem_cons]
      constructor
      · intro hy
        exact ⟨.inr hy,fun hyk => hz (hk ▸ hyk ▸ List.mem_map_of_mem hy)⟩
      · rintro ⟨rfl | hy,hyk⟩
        · exact absurd hk hyk
        · exact hy
    · rw [List.eraseP_cons_of_neg (by simpa using hk),List.mem_cons,List.mem_cons,ih hl]
      constructor
      · rintro (rfl | ⟨hy,hyk⟩)
        · exact ⟨.inl rfl,hk⟩
        · exact ⟨.inr hy,hyk⟩
      · rintro ⟨rfl | hy,hyk⟩
        · exact .inl rfl
        · exact .inr ⟨hy,hyk⟩

omit [DecidableEq κ] in
theorem inj_of_mem (h : (l.map key).Nodup) (hx : x ∈ l) (hy : y ∈ l) (hxy : key x = key y) :
    x = y := List.inj_on_of_nodup_map h hx hy hxy

/-- A list is one of its records and the others. -/
theorem perm_cons_eraseP (h : (l.map key).Nodup) (hx : x ∈ l) :
    l.Perm (x :: l.eraseP (key · = key x)) := by
  obtain ⟨a,l₁,l₂,-,ha,hl,herase⟩ := List.exists_of_eraseP hx
    (p := fun y => decide (key y = key x)) (decide_eq_true rfl)
  have hmem : a ∈ l := by rw [hl]; simp
  have heq : a = x := inj_of_mem h hmem hx (of_decide_eq_true ha)
  rw [herase,← heq]
  nth_rewrite 1 [hl]
  exact List.perm_middle

/-- A record in the place of another one, at the end. -/
theorem map_putLast_perm {β : Type*} {f : α → β} (h : (l.map key).Nodup) (hx : x ∈ l)
    (hy : f y = f x) : ((l.eraseP (key · = key x) ++ [y]).map f).Perm (l.map f) := by
  have hperm := ((perm_cons_eraseP h hx).map f).symm
  rw [List.map_cons,← hy] at hperm
  rw [List.map_append]
  exact (List.perm_append_singleton _ _).trans hperm

/-- A record is found by its key. -/
theorem find_of_mem (h : (l.map key).Nodup) (hx : x ∈ l) : l.find? (key · = key x) = some x := by
  cases hf : l.find? (key · = key x) with
  | none => exact absurd (decide_eq_true rfl) (List.find?_eq_none.mp hf x hx)
  | some y =>
    have hkey : key y = key x := by simpa using List.find?_some hf
    rw [inj_of_mem h (List.mem_of_find?_eq_some hf) hx hkey]

theorem find_isSome_iff : (l.find? (key · = k)).isSome ↔ k ∈ l.map key := by
  rw [List.find?_isSome,List.mem_map]
  simp

variable [BEq κ] [LawfulBEq κ]

theorem replace_perm {ks : List κ} {a b : κ} (h : a ∈ ks) :
    (ks.replace a b).Perm (b :: ks.erase a) := by
  induction ks with
  | nil => cases h
  | cons c ks ih =>
    by_cases hc : c = a
    · rw [hc,List.replace_cons_self,List.erase_cons_head]
    · have hmem : a ∈ ks := (List.mem_cons.mp h).resolve_left (Ne.symm hc)
      rw [List.replace_cons,List.erase_cons_tail (by simpa using hc)]
      have hne : (a == c) = false := by simpa using Ne.symm hc
      simp only [hne]
      exact ((ih hmem).cons c).trans (List.Perm.swap b c _)

/-- A key that is no key yet takes the place of another one. -/
theorem nodup_replace {ks : List κ} {a b : κ} (h : ks.Nodup) (hb : b ∉ ks) :
    (ks.replace a b).Nodup := by
  by_cases ha : a ∈ ks
  · rw [(replace_perm ha).nodup_iff,List.nodup_cons]
    exact ⟨fun hmem => hb (List.mem_of_mem_erase hmem),h.erase a⟩
  · rwa [List.replace_of_not_mem ha]

theorem mem_replace {ks : List κ} {a b c : κ} (h : ks.Nodup) (hc : c ∈ ks.replace a b) :
    c = b ∨ c ∈ ks ∧ c ≠ a := by
  by_cases ha : a ∈ ks
  · rcases List.mem_cons.mp ((replace_perm ha).mem_iff.mp hc) with hc | hc
    · exact .inl hc
    · exact .inr ((List.Nodup.mem_erase_iff h).mp hc).symm
  · rw [List.replace_of_not_mem ha] at hc
    exact .inr ⟨hc,fun hca => ha (hca ▸ hc)⟩

/-- Renamed keys stand for the same values, in the same order. -/
theorem filterMap_replace {β : Type*} {ks : List κ} {a b : κ} {f g : κ → Option β}
    (h : ks.Nodup) (hb : g b = f a) (hother : ∀ k ∈ ks, k ≠ a → g k = f k) :
    (ks.replace a b).filterMap g = ks.filterMap f := by
  induction ks with
  | nil => rfl
  | cons c ks ih =>
    obtain ⟨hc,hks⟩ := List.nodup_cons.mp h
    by_cases hca : c = a
    · subst hca
      have htail : ks.filterMap g = ks.filterMap f := List.filterMap_congr fun k hk =>
        hother k (List.mem_cons_of_mem _ hk) fun heq => hc (heq ▸ hk)
      rw [List.replace_cons_self,List.filterMap_cons,List.filterMap_cons,hb,htail]
    · have hne : (a == c) = false := by simpa using Ne.symm hca
      rw [List.replace_cons]
      simp only [hne]
      rw [List.filterMap_cons,List.filterMap_cons,hother c List.mem_cons_self hca,
        ih hks fun k hk => hother k (List.mem_cons_of_mem _ hk)]

end Keyed
end Exchange
