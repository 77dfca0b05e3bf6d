import Mathlib.Data.List.Perm.Lattice

/-! Lookup by a word that may abbreviate a name: a pass over the rows counts those that the word
hits, keeps the last of them, and stops at one that has exactly that name. -/
namespace CText

inductive Lookup (ρ : Type*) where
  | ambiguous
  | unknown
  | found (row : ρ)

namespace Lookup
variable {ρ : Type*} (hit exact : ρ → Bool)

def pass : ℕ → Option ρ → List ρ → ℕ × Option ρ
  | count, kept, [] => (count,kept)
  | count, kept, row :: rows =>
    if hit row then
      if exact row then (1,some row) else pass (count+1) (some row) rows
    else pass count kept rows

def result : ℕ × Option ρ → Lookup ρ
  | (1,some row) => .found row
  | (0,_) => .unknown
  | _ => .ambiguous

def lookup (rows : List ρ) : Lookup ρ := result (pass hit exact 0 none rows)

section Pass
variable {hit exact}

/-- Where a row is hit exactly, the pass stops at one of these. -/
theorem pass_exact (hexact : ∀ r, exact r → hit r) {rows : List ρ} (h : ∃ r ∈ rows, exact r)
    (count : ℕ) (kept : Option ρ) :
    ∃ r ∈ rows, exact r ∧ pass hit exact count kept rows = (1,some r) := by
  induction rows generalizing count kept with
  | nil => simp at h
  | cons row rows ih =>
    rw [pass]
    by_cases hrow : exact row
    · exact ⟨row,List.mem_cons_self,hrow,by rw [if_pos (hexact row hrow),if_pos hrow]⟩
    have hrest : ∃ r ∈ rows, exact r := by
      obtain ⟨r,hr,he⟩ := h
      rcases List.mem_cons.mp hr with rfl | hr
      · exact absurd he hrow
      · exact ⟨r,hr,he⟩
    rw [if_neg hrow]
    split
    · obtain ⟨r,hr,he,hp⟩ := ih hrest (count+1) (some row)
      exact ⟨r,List.mem_cons_of_mem row hr,he,hp⟩
    · obtain ⟨r,hr,he,hp⟩ := ih hrest count kept
      exact ⟨r,List.mem_cons_of_mem row hr,he,hp⟩

/-- Otherwise it counts the rows that are hit, and the last of them is left. -/
theorem pass_inexact {rows : List ρ} (h : ∀ r ∈ rows, ¬ exact r) (count : ℕ) (kept : Option ρ) :
    pass hit exact count kept rows =
      (count+(rows.filter hit).length,(rows.filter hit).getLast?.or kept) := by
  induction rows generalizing count kept with
  | nil => rfl
  | cons row rows ih =>
    have hrest := ih fun r hr => h r (List.mem_cons_of_mem row hr)
    rw [pass,if_neg (h row List.mem_cons_self)]
    by_cases hrow : hit row
    · rw [if_pos hrow,hrest,List.filter_cons_of_pos hrow,List.length_cons,List.getLast?_cons,
        Option.or_some,Option.some_or]
      congr 1
      omega
    · rw [if_neg hrow,hrest,List.filter_cons_of_neg hrow]

end Pass

section Lookup
variable {hit exact} (hexact : ∀ r, exact r → hit r) {rows : List ρ}
include hexact

/-- One row at most is hit exactly, and no row comes twice. -/
structure Distinct (exact : ρ → Bool) (rows : List ρ) : Prop where
  unique : ∀ r ∈ rows, ∀ s ∈ rows, exact r → exact s → r = s
  nodup : rows.Nodup

theorem lookup_exact (hd : Distinct exact rows) {row : ρ} (hrow : row ∈ rows) (he : exact row) :
    lookup hit exact rows = .found row := by
  obtain ⟨r,hr,her,hp⟩ := pass_exact hexact ⟨row,hrow,he⟩ 0 none
  rw [lookup,hp,hd.unique r hr row hrow her he]
  rfl

omit hexact in
theorem lookup_inexact (h : ∀ r ∈ rows, ¬ exact r) : lookup hit exact rows =
    match rows.filter hit with
    | [] => .unknown
    | [row] => .found row
    | _ => .ambiguous := by
  rw [lookup,pass_inexact h]
  match rows.filter hit with
  | [] => rfl
  | [row] => rfl
  | a :: b :: rest =>
    rw [List.length_cons,List.length_cons,Nat.zero_add,result]
    · rintro row hrow
      simp at hrow
    · rintro o ho
      simp at ho

omit hexact in
theorem filter_eq_singleton (hnodup : rows.Nodup) {row : ρ} :
    rows.filter hit = [row] ↔ (row ∈ rows ∧ hit row) ∧ ∀ r ∈ rows, hit r → r = row := by
  constructor
  · intro h
    have hmem : ∀ r, r ∈ rows ∧ hit r ↔ r = row := fun r => by
      rw [← List.mem_filter,h,List.mem_singleton]
    exact ⟨(hmem row).mpr rfl,fun r hr hh => (hmem r).mp ⟨hr,hh⟩⟩
  · rintro ⟨hrow,honly⟩
    apply List.perm_singleton.mp
    apply (List.perm_ext_iff_of_nodup (hnodup.filter hit) (List.nodup_singleton row)).mpr
    intro r
    rw [List.mem_filter,List.mem_singleton]
    exact ⟨fun ⟨hr,hh⟩ => honly r hr hh,fun h => h ▸ hrow⟩

/-- A row is found when its name is the word, or when the word abbreviates it alone and is no
name. -/
theorem lookup_found_iff (hd : Distinct exact rows) {row : ρ} :
    lookup hit exact rows = .found row ↔ row ∈ rows ∧ (exact row ∨
      (∀ r ∈ rows, ¬ exact r) ∧ hit row ∧ ∀ r ∈ rows, hit r → r = row) := by
  by_cases h : ∃ r ∈ rows, exact r
  · obtain ⟨r,hr,he⟩ := h
    rw [lookup_exact hexact hd hr he]
    constructor
    · rintro ⟨⟩
      exact ⟨hr,.inl he⟩
    · rintro ⟨hrow,he' | ⟨hnone,-⟩⟩
      · rw [hd.unique r hr row hrow he he']
      · exact absurd he (hnone r hr)
  · have hnone : ∀ r ∈ rows, ¬ exact r := fun r hr he => h ⟨r,hr,he⟩
    rw [lookup_inexact hnone]
    have hsingle : rows.filter hit = [row] ↔ _ := filter_eq_singleton hd.nodup
    constructor
    · intro hfound
      have hfilter : rows.filter hit = [row] := by
        split at hfound
        · cases hfound
        · cases hfound
          assumption
        · cases hfound
      obtain ⟨⟨hrow,hh⟩,honly⟩ := hsingle.mp hfilter
      exact ⟨hrow,.inr ⟨hnone,hh,honly⟩⟩
    · rintro ⟨hrow,he | ⟨-,hh,honly⟩⟩
      · exact absurd he (hnone row hrow)
      · rw [hsingle.mpr ⟨⟨hrow,hh⟩,honly⟩]

theorem lookup_unknown (h : ∀ r ∈ rows, ¬ hit r) : lookup hit exact rows = .unknown := by
  rw [lookup_inexact fun r hr he => h r hr (hexact r he),List.filter_eq_nil_iff.mpr h]

omit hexact in
theorem lookup_ambiguous (h : ∀ r ∈ rows, ¬ exact r) {a b : ρ} (ha : a ∈ rows) (hb : b ∈ rows)
    (hab : a ≠ b) (hha : hit a) (hhb : hit b) : lookup hit exact rows = .ambiguous := by
  rw [lookup_inexact h]
  have hma : a ∈ rows.filter hit := List.mem_filter.mpr ⟨ha,hha⟩
  have hmb : b ∈ rows.filter hit := List.mem_filter.mpr ⟨hb,hhb⟩
  split
  · simp_all
  · rename_i row hfilter
    rw [hfilter,List.mem_singleton] at hma hmb
    exact absurd (hma.trans hmb.symm) hab
  · rfl

omit hexact in
/-- The ways in which a word can meet the rows. -/
theorem lookup_cases (hit exact : ρ → Bool) (rows : List ρ) : (∃ r ∈ rows, exact r) ∨ (∀ r ∈ rows, ¬ hit r) ∨
    (∀ r ∈ rows, ¬ exact r) ∧ ((∃ row ∈ rows, hit row ∧ ∀ r ∈ rows, hit r → r = row) ∨
      ∃ a ∈ rows, ∃ b ∈ rows, a ≠ b ∧ hit a ∧ hit b) := by
  by_cases h : ∃ r ∈ rows, exact r
  · exact .inl h
  by_cases hh : ∃ r ∈ rows, hit r
  · obtain ⟨row,hrow,hhit⟩ := hh
    refine .inr (.inr ⟨fun r hr he => h ⟨r,hr,he⟩,?_⟩)
    by_cases honly : ∀ r ∈ rows, hit r → r = row
    · exact .inl ⟨row,hrow,hhit,honly⟩
    · push Not at honly
      obtain ⟨r,hr,hhr,hne⟩ := honly
      exact .inr ⟨r,hr,row,hrow,hne,hhr,hhit⟩
  · exact .inr (.inl fun r hr hhr => hh ⟨r,hr,hhr⟩)

/-- The order of the rows does not matter. -/
theorem lookup_perm (hd : Distinct exact rows) {rows' : List ρ} (hperm : rows'.Perm rows) :
    lookup hit exact rows' = lookup hit exact rows := by
  have hmem : ∀ r, r ∈ rows' ↔ r ∈ rows := fun r => hperm.mem_iff
  have hd' : Distinct exact rows' :=
    ⟨fun r hr s hs => hd.unique r ((hmem r).mp hr) s ((hmem s).mp hs),hperm.nodup_iff.mpr hd.nodup⟩
  rcases lookup_cases hit exact rows with ⟨row,hrow,he⟩ | hnone | ⟨hnone,hrest⟩
  · rw [lookup_exact hexact hd hrow he,lookup_exact hexact hd' ((hmem row).mpr hrow) he]
  · rw [lookup_unknown hexact hnone,
      lookup_unknown hexact fun r hr => hnone r ((hmem r).mp hr)]
  · have hnone' : ∀ r ∈ rows', ¬ exact r := fun r hr => hnone r ((hmem r).mp hr)
    rcases hrest with ⟨row,hrow,hh,honly⟩ | ⟨a,ha,b,hb,hab,hha,hhb⟩
    · rw [(lookup_found_iff hexact hd).mpr ⟨hrow,.inr ⟨hnone,hh,honly⟩⟩]
      exact (lookup_found_iff hexact hd').mpr ⟨(hmem row).mpr hrow,
        .inr ⟨hnone',hh,fun r hr => honly r ((hmem r).mp hr)⟩⟩
    · rw [lookup_ambiguous hnone ha hb hab hha hhb]
      exact lookup_ambiguous hnone' ((hmem a).mpr ha) ((hmem b).mpr hb) hab hha hhb

end Lookup

end Lookup

end CText
