import Mathlib.Data.List.Dedup

/-! Bounded lists of what was used last: each use comes to the front, and the oldest entries are
forgotten. -/
namespace CText
namespace Recent
variable {α : Type*} [DecidableEq α]

/-- A use. -/
def touch (x : α) (l : List α) : List α := x :: l.erase x

/-- A use that leaves some entries only. -/
def keep (n : ℕ) (l : List α) (x : α) : List α := (touch x l).take n

/-- All that was used, the last use first, each once. -/
def recent (uses : List α) : List α := uses.dedup.reverse

section Touch

theorem mem_touch {x y : α} {l : List α} : y ∈ touch x l ↔ y = x ∨ y ∈ l := by
  rw [touch,List.mem_cons]
  by_cases h : y = x
  · simp [h]
  · simp [h,List.mem_erase_of_ne h]

theorem nodup_touch {l : List α} (h : l.Nodup) (x : α) : (touch x l).Nodup :=
  List.nodup_cons.mpr ⟨h.not_mem_erase,h.erase x⟩

theorem take_erase_take (x : α) (l : List α) (n : ℕ) :
    ((l.take (n+1)).erase x).take n = (l.erase x).take n := by
  induction l generalizing n with
  | nil => rfl
  | cons y l ih =>
    rw [List.take_succ_cons]
    by_cases h : y = x
    · rw [h,List.erase_cons_head,List.erase_cons_head,List.take_take,Nat.min_self]
    · rw [List.erase_cons_tail (by simpa using h),List.erase_cons_tail (by simpa using h)]
      cases n with
      | zero => rfl
      | succ n => rw [List.take_succ_cons,List.take_succ_cons,ih]

/-- What is forgotten does not come back. -/
theorem keep_take (n : ℕ) (l : List α) (x : α) : keep (n+1) (l.take (n+1)) x = keep (n+1) l x := by
  rw [keep,keep,touch,touch,List.take_succ_cons,List.take_succ_cons,take_erase_take]

theorem keep_map {β : Type*} [DecidableEq β] {f : α → β} (hf : Function.Injective f) (n : ℕ)
    (l : List α) (x : α) : keep n (l.map f) (f x) = (keep n l x).map f := by
  rw [keep,keep,touch,touch,List.map_take,List.map_cons,List.map_erase hf]

theorem keep_length_le (n : ℕ) (l : List α) (x : α) : (keep n l x).length ≤ n :=
  List.length_take_le n _

end Touch

section Runs

theorem dedup_append_singleton (l : List α) (x : α) : (l ++ [x]).dedup = l.dedup.erase x ++ [x] := by
  induction l with
  | nil => simp
  | cons y l ih =>
    rw [List.cons_append]
    by_cases hx : y = x
    · subst hx
      rw [List.dedup_cons_of_mem (by simp),ih]
      by_cases hy : y ∈ l
      · rw [List.dedup_cons_of_mem hy]
      · have herase : l.dedup.erase y = l.dedup :=
          List.erase_of_not_mem (mt List.mem_dedup.mp hy)
        rw [List.dedup_cons_of_notMem hy,List.erase_cons_head,herase]
    · by_cases hy : y ∈ l
      · rw [List.dedup_cons_of_mem (List.mem_append_left _ hy),List.dedup_cons_of_mem hy,ih]
      · rw [List.dedup_cons_of_notMem (by simp [hy,hx]),List.dedup_cons_of_notMem hy,ih,
          List.erase_cons_tail (by simpa using hx),List.cons_append]

theorem recent_append (uses : List α) (x : α) : recent (uses ++ [x]) = touch x (recent uses) := by
  have hnodup : uses.dedup.Nodup := List.nodup_dedup uses
  have hrev : uses.dedup.reverse.erase x = (uses.dedup.erase x).reverse := by
    rw [(List.nodup_reverse.mpr hnodup).erase_eq_filter,hnodup.erase_eq_filter,List.filter_reverse]
  rw [recent,dedup_append_singleton,List.reverse_append,List.reverse_singleton,touch,recent,hrev]
  rfl

theorem mem_recent {uses : List α} {x : α} : x ∈ recent uses ↔ x ∈ uses := by
  rw [recent,List.mem_reverse,List.mem_dedup]

/-- A list without duplicates is what its uses from the last to the first leave. -/
theorem recent_reverse {l : List α} (h : l.Nodup) : recent l.reverse = l := by
  rw [recent,(List.nodup_reverse.mpr h).dedup,List.reverse_reverse]

/-- After a run the list has the last ones of all that was used. -/
theorem foldl_keep (n : ℕ) (before uses : List α) :
    uses.foldl (keep (n+1)) ((recent before).take (n+1)) = (recent (before ++ uses)).take (n+1) := by
  induction uses generalizing before with
  | nil => rw [List.append_nil]; rfl
  | cons x uses ih =>
    rw [List.foldl_cons,keep_take,keep,← recent_append,ih,List.append_assoc]
    rfl

/-- The uses from the last one to the first, of some entries only, build those entries. -/
theorem foldl_keep_reverse {n : ℕ} {l : List α} (h : l.Nodup) (hlen : l.length ≤ n+1) :
    l.reverse.foldl (keep (n+1)) [] = l := by
  have hrun := foldl_keep n [] l.reverse
  rw [List.nil_append,recent_reverse h,List.take_of_length_le hlen] at hrun
  exact hrun

end Runs

end Recent
end CText
