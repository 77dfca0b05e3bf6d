import WpaCliWrapper.CText.Bytes
import WpaCliWrapper.Smartlist.PQueue

/-! The most frequent item of a sorted smartlist. Equal items are neighbours, and the loop counts
one run of them after the other. -/
namespace WpaCliWrapper
namespace Smartlist
open PQueue (Comparison)
variable {α : Type}

/-- The variables of `smartlist_get_most_frequent_`. -/
structure Frequency (α : Type) where
  mostFrequent : α
  mostFrequentCount : ℕ
  cur : α
  count : ℕ

section Loop
variable [DecidableEq α] (null : α) (compare : α → α → ℤ)

/-- One round: an item equal to the current one is counted, another one ends the run. -/
def frequencyRound (s : Frequency α) (item : α) : Frequency α :=
  if s.cur ≠ null ∧ compare s.cur item = 0 then { s with count := s.count+1 }
  else
    let s := if s.cur ≠ null ∧ s.mostFrequentCount ≤ s.count then
      { s with mostFrequent := s.cur, mostFrequentCount := s.count } else s
    { s with cur := item, count := 1 }

def frequencyLoop (sl : Smartlist α) : ℕ → ℕ → Frequency α → Option (Frequency α)
  | 0, i, s => if i < sl.numUsed then none else some s
  | rounds+1, i, s =>
    if i < sl.numUsed then do
      frequencyLoop sl rounds (i+1) (frequencyRound null compare s (← sl.get i))
    else some s

/-- `smartlist_get_most_frequent_`: the item, or `NULL`, and what is stored in `*count_out`. -/
def getMostFrequent (sl : Smartlist α) : Option (α × ℕ) :=
  if sl.numUsed = 0 then some (null,0)
  else do
    let s ← frequencyLoop null compare sl sl.numUsed 0 ⟨null,0,null,0⟩
    if s.cur ≠ null ∧ s.mostFrequentCount < s.count then return (s.cur,s.count)
    else return (s.mostFrequent,s.mostFrequentCount)

end Loop

section Classes
variable (compare : α → α → ℤ)

/-- The number of members that are equal to an item. -/
def classSize (xs : List α) (x : α) : ℕ := xs.countP fun y => compare x y = 0

/-- The item is a member of a class of this size, no class has more members, and no class of that
size is higher. -/
structure MostFrequent (xs : List α) (item : α) (count : ℕ) : Prop where
  member : item ∈ xs
  size : classSize compare xs item = count
  largest : ∀ y ∈ xs, classSize compare xs y ≤ count
  highest : ∀ y ∈ xs, classSize compare xs y = count → compare y item ≤ 0

/-- The class of the last member is as large as another class, and no class is larger. -/
def TiedLast (xs : List α) : Prop := ∃ last ∈ xs.getLast?, ∃ y ∈ xs, compare last y ≠ 0 ∧
  classSize compare xs y = classSize compare xs last ∧
    ∀ z ∈ xs, classSize compare xs z ≤ classSize compare xs last

end Classes

section Runs
variable {compare : α → α → ℤ} (hc : Comparison compare) {done run : List α} {cur : α}
  (hcur : cur ∈ run) (hrun : ∀ x ∈ run, compare cur x = 0) (hdone : ∀ d ∈ done, compare d cur < 0)
include hc hrun hdone

theorem classSize_done {y : α} (hy : y ∈ done) :
    classSize compare (done ++ run) y = classSize compare done y := by
  have hzero : run.countP (fun x => compare y x = 0) = 0 := by
    rw [List.countP_eq_zero]
    intro x hx
    have hlt := hc.lt_of_lt_of_le (hdone y hy) (hrun x hx).le
    simpa using hlt.ne
  rw [classSize,List.countP_append,hzero,Nat.add_zero,classSize]

theorem classSize_run {y : α} (hy : y ∈ run) :
    classSize compare (done ++ run) y = run.length := by
  have hequal : ∀ x ∈ run, compare y x = 0 := by
    intro x hx
    have hyx := hc.trans y cur x (hc.equal_comm.mp (hrun y hy)).le (hrun x hx).le
    have hxy := hc.trans x cur y (hc.equal_comm.mp (hrun x hx)).le (hrun y hy).le
    have hnot : ¬ compare y x < 0 := fun hlt => by
      rw [hc.opposite] at hlt
      omega
    omega
  have hzero : done.countP (fun x => compare y x = 0) = 0 := by
    rw [List.countP_eq_zero]
    intro d hd
    have hlt := hc.lt_of_lt_of_le (hdone d hd) (hrun y hy).le
    rw [hc.opposite] at hlt
    simpa using hlt.ne'
  have hall : run.countP (fun x => compare y x = 0) = run.length := by
    rw [List.countP_eq_length]
    simpa using hequal
  rw [classSize,List.countP_append,hzero,hall,Nat.zero_add]

end Runs

/-- The members so far are the runs that were ended and the run that is counted. -/
structure Counted (compare : α → α → ℤ) (s : Frequency α) (done run : List α) : Prop where
  cur : s.cur ∈ run
  equal : ∀ x ∈ run, compare s.cur x = 0
  less : ∀ d ∈ done, compare d s.cur < 0
  count : s.count = run.length
  best : done = [] ∧ s.mostFrequentCount = 0 ∨
    MostFrequent compare done s.mostFrequent s.mostFrequentCount

section Rounds
variable {compare : α → α → ℤ} (hc : Comparison compare) {s : Frequency α} {done run : List α}
  (h : Counted compare s done run)
include hc h

theorem Counted.size_done {y : α} (hy : y ∈ done) :
    classSize compare (done ++ run) y ≤ s.mostFrequentCount := by
  rw [classSize_done hc h.equal h.less hy]
  obtain ⟨rfl,-⟩ | hbest := h.best
  · cases hy
  · exact hbest.largest y hy

theorem Counted.size_run {y : α} (hy : y ∈ run) :
    classSize compare (done ++ run) y = s.count :=
  (classSize_run hc h.equal h.less hy).trans h.count.symm

/-- A run that is as long as each before it is the most frequent one when it ends. -/
theorem Counted.mostFrequent_cur (hle : s.mostFrequentCount ≤ s.count) :
    MostFrequent compare (done ++ run) s.cur s.count := by
  refine ⟨List.mem_append_right done h.cur,h.size_run hc h.cur,fun y hy => ?_,fun y hy _ => ?_⟩
  · cases List.mem_append.mp hy with
    | inl hy => exact (h.size_done hc hy).trans hle
    | inr hy => exact (h.size_run hc hy).le
  · cases List.mem_append.mp hy with
    | inl hy => exact (h.less y hy).le
    | inr hy => exact (hc.equal_comm.mp (h.equal y hy)).le

/-- A shorter run changes nothing. -/
theorem Counted.mostFrequent_before (hlt : s.count < s.mostFrequentCount) :
    MostFrequent compare (done ++ run) s.mostFrequent s.mostFrequentCount := by
  obtain ⟨-,hzero⟩ | hbest := h.best
  · omega
  refine ⟨List.mem_append_left run hbest.member,?_,fun y hy => ?_,fun y hy hsize => ?_⟩
  · rw [classSize_done hc h.equal h.less hbest.member]
    exact hbest.size
  · cases List.mem_append.mp hy with
    | inl hy => exact h.size_done hc hy
    | inr hy => exact ((h.size_run hc hy).trans_lt hlt).le
  · cases List.mem_append.mp hy with
    | inl hy =>
      rw [classSize_done hc h.equal h.less hy] at hsize
      exact hbest.highest y hy hsize
    | inr hy =>
      rw [h.size_run hc hy] at hsize
      omega

/-- The run that is counted ties with one before it if and only if the last member does. -/
theorem Counted.tiedLast_iff : TiedLast compare (done ++ run) ↔ s.mostFrequentCount = s.count := by
  have hne : run ≠ [] := List.ne_nil_of_mem h.cur
  have hpos : 0 < s.count := by
    rw [h.count]
    exact List.length_pos_of_ne_nil hne
  have hlast : (done ++ run).getLast? = run.getLast? := by
    rw [List.getLast?_append,List.getLast?_eq_some_getLast hne]
    rfl
  constructor
  · rintro ⟨last,hmem,y,hy,hdiff,hsize,hmax⟩
    rw [hlast] at hmem
    have hrun := List.mem_of_getLast? hmem
    rw [h.size_run hc hrun] at hsize hmax
    have hdone : y ∈ done := by
      refine (List.mem_append.mp hy).resolve_right fun hy => hdiff ?_
      have hle := hc.trans last s.cur y (hc.equal_comm.mp (h.equal last hrun)).le (h.equal y hy).le
      have hge := hc.trans y s.cur last (hc.equal_comm.mp (h.equal y hy)).le (h.equal last hrun).le
      have hopp := hc.opposite last y
      omega
    have hle := h.size_done hc hdone
    refine Nat.le_antisymm (Nat.le_of_not_lt fun hlt => ?_) (hsize ▸ hle)
    have hbest := h.mostFrequent_before hc hlt
    have := hmax s.mostFrequent hbest.member
    rw [hbest.size] at this
    omega
  · intro htie
    obtain ⟨-,hzero⟩ | hbest := h.best
    · omega
    have hlastmem := List.getLast_mem hne
    have hlt := hc.lt_of_lt_of_le (h.less _ hbest.member) (h.equal _ hlastmem).le
    rw [hc.opposite] at hlt
    refine ⟨run.getLast hne,by rw [hlast]; exact List.getLast?_eq_some_getLast hne,s.mostFrequent,
      List.mem_append_left run hbest.member,hlt.ne',?_,?_⟩
    · rw [h.size_run hc hlastmem,classSize_done hc h.equal h.less hbest.member,hbest.size,htie]
    · intro z hz
      rw [h.size_run hc hlastmem]
      exact (h.mostFrequent_cur hc htie.le).largest z hz

variable [DecidableEq α] {null : α}

/-- One round keeps what is known of the runs. -/
theorem Counted.round {x : α} (hnull : s.cur ≠ null) (hle : ∀ y ∈ done ++ run, compare y x ≤ 0) :
    ∃ done' run', done' ++ run' = done ++ run ++ [x] ∧
      Counted compare (frequencyRound null compare s x) done' run' := by
  have hx := hle s.cur (List.mem_append_right done h.cur)
  unfold frequencyRound
  by_cases hequal : compare s.cur x = 0
  · rw [if_pos ⟨hnull,hequal⟩]
    refine ⟨done,run ++ [x],(List.append_assoc _ _ _).symm,List.mem_append_left _ h.cur,?_,h.less,?_,
      h.best⟩
    · intro y hy
      cases List.mem_append.mp hy with
      | inl hy => exact h.equal y hy
      | inr hy => rwa [List.mem_singleton.mp hy]
    · rw [List.length_append,List.length_singleton,h.count]
  · have hlt : compare s.cur x < 0 := by omega
    have hless : ∀ d ∈ done ++ run, compare d x < 0 := by
      intro d hd
      cases List.mem_append.mp hd with
      | inl hd => exact hc.lt_of_lt_of_le (h.less d hd) hx
      | inr hd => exact hc.lt_of_le_of_lt (hc.equal_comm.mp (h.equal d hd)).le hlt
    rw [if_neg fun hand => hequal hand.2]
    refine ⟨done ++ run,[x],rfl,List.mem_singleton_self x,?_,hless,rfl,.inr ?_⟩
    · intro y hy
      rw [List.mem_singleton.mp hy]
      exact hc.refl x
    · by_cases hcount : s.mostFrequentCount ≤ s.count
      · simp only [if_pos (And.intro hnull hcount)]
        exact h.mostFrequent_cur hc hcount
      · simp only [if_neg fun hand : s.cur ≠ null ∧ _ => hcount hand.2]
        exact h.mostFrequent_before hc (by omega)

end Rounds

section Main
variable [DecidableEq α] {null : α} {compare : α → α → ℤ} (hc : Comparison compare)

theorem frequencyLoop_eq {sl : Smartlist α} (s : Frequency α) {rounds : ℕ} {before rest : List α}
    (h : sl.Holds (before ++ rest)) (hrounds : rest.length ≤ rounds) :
    frequencyLoop null compare sl rounds before.length s =
      some (rest.foldl (frequencyRound null compare) s) := by
  induction rounds generalizing before rest s with
  | zero =>
    obtain rfl := List.eq_nil_of_length_eq_zero (Nat.le_zero.mp hrounds)
    exact if_neg (by simp [h.used])
  | succ rounds ih =>
    rw [frequencyLoop]
    cases rest with
    | nil => exact if_neg (by simp [h.used])
    | cons x rest =>
      obtain ⟨hlt,hget⟩ := h.get_next
      rw [List.length_cons,Nat.add_le_add_iff_right] at hrounds
      have hrest := ih (frequencyRound null compare s x)
        (show sl.Holds (before ++ [x] ++ rest) by simpa using h) hrounds
      rw [List.length_append,List.length_singleton] at hrest
      rw [if_pos hlt,hget]
      exact hrest

include hc

/-- All rounds keep what is known of the runs. -/
theorem Counted.foldl {s : Frequency α} {done run rest : List α} (h : Counted compare s done run)
    (hnull : ∀ x ∈ done ++ run ++ rest, x ≠ null)
    (hsorted : (done ++ run ++ rest).Pairwise (compare · · ≤ 0)) :
    ∃ done' run', done' ++ run' = done ++ run ++ rest ∧
      Counted compare (rest.foldl (frequencyRound null compare) s) done' run' := by
  induction rest generalizing s done run with
  | nil => exact ⟨done,run,(List.append_nil _).symm,h⟩
  | cons x rest ih =>
    have hcur := hnull s.cur (List.mem_append_left _ (List.mem_append_right _ h.cur))
    have hle : ∀ y ∈ done ++ run, compare y x ≤ 0 := fun y hy =>
      (List.pairwise_append.mp hsorted).2.2 y hy x List.mem_cons_self
    obtain ⟨done',run',heq,hcounted⟩ := h.round hc hcur hle
    have hsplit : done ++ run ++ x :: rest = done' ++ run' ++ rest := by
      rw [heq,List.append_assoc _ [x],List.singleton_append]
    rw [hsplit] at hnull hsorted ⊢
    exact ih hcounted hnull hsorted

/-- The loop counts the runs of the list, and the last run counts at the end. -/
theorem getMostFrequent_counted {sl : Smartlist α} {xs : List α} (h : sl.Holds xs) (hxs : xs ≠ [])
    (hnull : ∀ x ∈ xs, x ≠ null) (hsorted : xs.Pairwise (compare · · ≤ 0)) :
    ∃ s done run, done ++ run = xs ∧ Counted compare s done run ∧
      getMostFrequent null compare sl = if s.mostFrequentCount < s.count then
        some (s.cur,s.count) else some (s.mostFrequent,s.mostFrequentCount) := by
  have hused := h.used
  obtain ⟨x,rest,rfl⟩ := List.exists_cons_of_ne_nil hxs
  have hfirst : Counted compare (frequencyRound null compare ⟨null,0,null,0⟩ x) [] [x] := by
    simp only [frequencyRound,ne_eq,not_true_eq_false,false_and,if_false]
    refine ⟨List.mem_singleton_self x,?_,?_,rfl,.inl ⟨rfl,rfl⟩⟩
    · intro y hy
      rw [List.mem_singleton.mp hy]
      exact hc.refl x
    · intro d hd
      cases hd
  obtain ⟨done,run,heq,hcounted⟩ := hfirst.foldl hc hnull hsorted
  have hloop : frequencyLoop null compare sl sl.numUsed 0 ⟨null,0,null,0⟩ =
      some ((x :: rest).foldl (frequencyRound null compare) ⟨null,0,null,0⟩) :=
    frequencyLoop_eq _ (show sl.Holds ([] ++ x :: rest) from h) hused.ge
  rw [List.foldl_cons] at hloop
  generalize rest.foldl (frequencyRound null compare) _ = s at hcounted hloop
  change done ++ run = x :: rest at heq
  refine ⟨s,done,run,heq,hcounted,?_⟩
  have hcur := hnull s.cur (heq ▸ List.mem_append_right done hcounted.cur)
  rw [getMostFrequent,if_neg (by rw [hused]; exact Nat.succ_ne_zero _),hloop]
  simp only [Option.bind_eq_bind,Option.bind_some,hcur,ne_eq,not_false_eq_true,true_and]
  rfl

/-- The item is of the highest class of maximal size, and the count is that size, if and only if
the last class is not tied with another one. -/
theorem getMostFrequent_iff {sl : Smartlist α} {xs : List α} (h : sl.Holds xs)
    (hnull : ∀ x ∈ xs, x ≠ null) (hsorted : xs.Pairwise (compare · · ≤ 0)) :
    (∃ item count, getMostFrequent null compare sl = some (item,count) ∧
      (xs = [] ∧ count = 0 ∨ MostFrequent compare xs item count)) ↔ ¬ TiedLast compare xs := by
  by_cases hxs : xs = []
  · subst hxs
    refine iff_of_true ⟨null,0,if_pos h.used,.inl ⟨rfl,rfl⟩⟩ ?_
    rintro ⟨last,hlast,-⟩
    cases hlast
  · obtain ⟨s,done,run,rfl,hcounted,hmost⟩ := getMostFrequent_counted hc h hxs hnull hsorted
    simp only [hmost,hcounted.tiedLast_iff hc,hxs,false_and,false_or]
    rcases lt_trichotomy s.mostFrequentCount s.count with hlt | htie | hgt
    · rw [if_pos hlt]
      exact iff_of_true ⟨_,_,rfl,hcounted.mostFrequent_cur hc hlt.le⟩ hlt.ne
    -- the item comes from an earlier run, and the last run is as long
    · rw [if_neg htie.not_lt]
      refine iff_of_false ?_ (not_not_intro htie)
      rintro ⟨item,count,hresult,hitem⟩
      obtain ⟨rfl,rfl⟩ := Prod.mk.inj (Option.some.inj hresult)
      have hle := hitem.highest s.cur (List.mem_append_right done hcounted.cur)
        ((hcounted.mostFrequent_cur hc htie.le).size.trans htie.symm)
      obtain ⟨-,hzero⟩ | hbest := hcounted.best
      · have hpos := List.length_pos_of_mem hcounted.cur
        rw [← hcounted.count] at hpos
        omega
      · have hless := hcounted.less _ hbest.member
        rw [hc.opposite] at hless
        omega
    · rw [if_neg hgt.not_gt]
      exact iff_of_true ⟨_,_,rfl,hcounted.mostFrequent_before hc hgt⟩ hgt.ne'

end Main

section Strings
open CText
variable (text : α → CString)

/-- `compare_string_ptrs_`. -/
def compareStringPtrs (a b : α) : ℤ := strcmp (text a).bytes (text b).bytes

theorem compareStringPtrs_comparison : Comparison (compareStringPtrs text) := by
  constructor
  · intro a b
    rw [compareStringPtrs,compareStringPtrs,strcmp_neg]
    omega
  · intro a b c
    exact strcmp_trans (text a).noNul (text b).noNul

/-- `smartlist_get_most_frequent_string_`. -/
def getMostFrequentString [DecidableEq α] (null : α) (sl : Smartlist α) : Option (α × ℕ) :=
  getMostFrequent null (compareStringPtrs text) sl

end Strings

open CText in
/-- Pointers to words, by their numbers. -/
def word : ℕ → CString
  | 1 => ⟨ascii "a",by decide⟩
  | 2 | 3 => ⟨ascii "b",by decide⟩
  | _ => ⟨ascii "c",by decide⟩

theorem getMostFrequentString_middle : ∃ item count,
    getMostFrequentString word 0 ⟨[1,2,3,4],4,4⟩ = some (item,count) ∧
      ([1,2,3,4] = [] ∧ count = 0 ∨
        MostFrequent (compareStringPtrs word) [1,2,3,4] item count) := by
  refine (getMostFrequent_iff (compareStringPtrs_comparison word)
    (show Holds ⟨[1,2,3,4],4,4⟩ [1,2,3,4] from ⟨⟨[],rfl⟩,rfl,rfl,by decide⟩)
    (by decide) (by decide)).mpr ?_
  rintro ⟨last,hlast,y,-,-,-,hmax⟩
  obtain rfl := Option.some.inj hlast
  exact absurd (hmax 2 (by decide)) (by decide)

/-- The highest word is as frequent as the other one, and is not returned. -/
theorem getMostFrequentString_last : ¬ ∃ item count,
    getMostFrequentString word 0 ⟨[1,2],2,2⟩ = some (item,count) ∧
      ([1,2] = [] ∧ count = 0 ∨ MostFrequent (compareStringPtrs word) [1,2] item count) := by
  rintro ⟨item,count,hresult,⟨hnil,-⟩ | hitem⟩
  · cases hnil
  have hone : getMostFrequentString word 0 ⟨[1,2],2,2⟩ = some (1,1) := by decide
  obtain ⟨rfl,rfl⟩ := Prod.mk.inj (Option.some.inj (hone.symm.trans hresult))
  exact absurd (hitem.highest 2 (by decide) (by decide)) (by decide)

end Smartlist

end WpaCliWrapper
