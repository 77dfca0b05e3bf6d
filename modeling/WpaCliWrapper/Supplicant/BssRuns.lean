import WpaCliWrapper.CText.Cells
import WpaCliWrapper.Exchange.Keyed
import WpaCliWrapper.Supplicant.BssTable

/-! The table of BSSs over whole runs: its two lists, the counter, and every variable that holds an
entry agree, and no entry is used after it was given back. -/
namespace WpaCliWrapper
open CText Exchange

namespace BssTable
variable {t : BssTable}

def ptrs (t : BssTable) : List ℕ := t.bss.map WpaBss.ptr

def isAdded : Change BssEntry → Bool
  | .added _ => true
  | .removed _ => false

/-- How many entries were announced. -/
def adds (t : BssTable) : ℕ := t.announced.countP isAdded

def entryAt (t : BssTable) (ptr : ℕ) : Option BssEntry := (t.at? ptr).map WpaBss.entry

/-- The announcements name every change, and their sum is the list that is ordered by identity. -/
structure Replays (t : BssTable) : Prop where
  next : t.bssNextId = t.adds
  id_lt : ∀ bss ∈ t.bss, bss.id < t.bssNextId
  id_nodup : (t.bss.map WpaBss.id).Nodup
  possible : Change.PossibleRun BssEntry.id [] t.announced
  after : Change.after BssEntry.id [] t.announced = t.bssId.filterMap t.entryAt

/-- The lists have the same entries, each with its own BSSID and SSID, and all that the variables hold
are entries of the table. Until the identities start over the announcements tell what is there. -/
structure WellFormed (t : BssTable) : Prop where
  nodup : t.ptrs.Nodup
  fresh : ∀ q ∈ t.ptrs, q < t.nextPtr
  ids : t.bssId.Perm t.ptrs
  count : t.numBss = t.bss.length
  keys : (t.bss.map WpaBss.key).Nodup
  results_nodup : t.lastScanRes.Nodup
  results : ∀ q ∈ t.lastScanRes, q ∈ t.ptrs
  work : ∀ q ∈ t.workBss, q ∈ t.ptrs
  current : ∀ q ∈ t.currentBss, q ∈ t.ptrs
  replays : t.adds < 2^32 → t.Replays

/-- The SSID of the current entry is the one of a network. -/
def CurrentKnown (t : BssTable) : Prop :=
  ∀ bss ∈ t.bss, t.currentBss = some bss.ptr → wpaBssKnown t.conf bss

instance (t : BssTable) : Decidable t.CurrentKnown :=
  inferInstanceAs (Decidable (∀ bss ∈ t.bss, t.currentBss = some bss.ptr → wpaBssKnown t.conf bss))

/-- The table has the entry, with counters that may differ. -/
def Listed (t : BssTable) (bss : WpaBss) : Prop :=
  ∃ b ∈ t.bss, b.ptr = bss.ptr ∧ b.entry = bss.entry

section Entries

theorem ptr_mem {bss : WpaBss} (h : bss ∈ t.bss) : bss.ptr ∈ t.ptrs := List.mem_map_of_mem h

theorem listed_of_mem {bss : WpaBss} (h : bss ∈ t.bss) : t.Listed bss := ⟨bss,h,rfl,rfl⟩

theorem Listed.ptr_mem {bss : WpaBss} (h : t.Listed bss) : bss.ptr ∈ t.ptrs := by
  obtain ⟨b,hb,hptr,-⟩ := h
  rw [← hptr]
  exact BssTable.ptr_mem hb

theorem entryAt_of_mem (h : t.ptrs.Nodup) {bss : WpaBss} (hbss : bss ∈ t.bss) :
    t.entryAt bss.ptr = some bss.entry := by
  rw [entryAt,at?,Keyed.find_of_mem h hbss]
  rfl

theorem Listed.entryAt (h : t.ptrs.Nodup) {bss : WpaBss} (hbss : t.Listed bss) :
    t.entryAt bss.ptr = some bss.entry := by
  obtain ⟨b,hb,hptr,hentry⟩ := hbss
  rw [← hptr,← hentry,entryAt_of_mem h hb]

theorem exists_of_mem_bssId (h : t.WellFormed) {q : ℕ} (hq : q ∈ t.bssId) :
    ∃ bss ∈ t.bss, bss.ptr = q := List.mem_map.mp (h.ids.mem_iff.mp hq)

theorem nodup_bssId (h : t.WellFormed) : t.bssId.Nodup := h.ids.nodup_iff.mpr h.nodup

end Entries

section Remove

theorem ptrs_remove (bss : WpaBss) : (t.wpaBssRemove bss).ptrs = t.ptrs.erase bss.ptr :=
  Keyed.map_eraseP t.bss bss.ptr

theorem mem_remove (h : t.WellFormed) {bss b : WpaBss} :
    b ∈ (t.wpaBssRemove bss).bss ↔ b ∈ t.bss ∧ b.ptr ≠ bss.ptr := Keyed.mem_eraseP h.nodup

theorem adds_remove (bss : WpaBss) : (t.wpaBssRemove bss).adds = t.adds := by
  change (t.announced ++ [Change.removed bss.entry]).countP isAdded = _
  rw [List.countP_append]
  rfl

theorem Replays.remove (h : t.WellFormed) (hr : t.Replays) {bss : WpaBss} (hbss : t.Listed bss) :
    (t.wpaBssRemove bss).Replays where
  next := hr.next.trans (adds_remove bss).symm
  id_lt b hb := hr.id_lt b ((mem_remove h).mp hb).1
  id_nodup := hr.id_nodup.sublist (List.eraseP_sublist.map _)
  possible := by
    refine (Change.possibleRun_append _).mpr ⟨hr.possible,?_⟩
    change bss.entry ∈ _
    rw [hr.after]
    exact List.mem_filterMap.mpr ⟨bss.ptr,h.ids.mem_iff.mpr hbss.ptr_mem,hbss.entryAt h.nodup⟩
  after := by
    change Change.after BssEntry.id [] (t.announced ++ [.removed bss.entry]) = _
    rw [Change.after_append,hr.after]
    change (t.bssId.filterMap t.entryAt).filter (fun e => decide (e.id ≠ bss.id)) =
      (t.bssId.erase bss.ptr).filterMap (t.wpaBssRemove bss).entryAt
    rw [(nodup_bssId h).erase_eq_filter,List.filter_filterMap,List.filterMap_filter]
    refine List.filterMap_congr fun q hq => ?_
    obtain ⟨b,hb,rfl⟩ := exists_of_mem_bssId h hq
    obtain ⟨b₀,hb₀,hptr,hentry⟩ := hbss
    have hid : b₀.id = bss.id := congrArg BssEntry.id hentry
    rw [entryAt_of_mem h.nodup hb]
    by_cases hq : b.ptr = bss.ptr
    · have heq : b = b₀ := Keyed.inj_of_mem h.nodup hb hb₀ (hq.trans hptr.symm)
      have hsame : b.entry.id = bss.id := by rw [heq,← hid]; rfl
      simp [hq,Option.filter,hsame]
    · have hne : b.entry.id ≠ bss.id := fun heq => hq (by
        rw [Keyed.inj_of_mem hr.id_nodup hb hb₀ (heq.trans hid.symm),hptr])
      have hleft := entryAt_of_mem (t := t.wpaBssRemove bss)
        (by rw [ptrs_remove]; exact h.nodup.erase _) ((mem_remove h).mpr ⟨hb,hq⟩)
      simp [hq,Option.filter,hne,hleft]

theorem WellFormed.remove (h : t.WellFormed) {bss : WpaBss} (hbss : t.Listed bss)
    (hcurrent : t.currentBss ≠ some bss.ptr) : (t.wpaBssRemove bss).WellFormed where
  nodup := by rw [ptrs_remove]; exact h.nodup.erase _
  fresh q hq := h.fresh q (List.mem_of_mem_erase (ptrs_remove bss ▸ hq))
  ids := by rw [ptrs_remove]; exact h.ids.erase _
  count := by
    have hlen : (t.bss.eraseP (·.ptr = bss.ptr)).length+1 = t.bss.length :=
      Keyed.length_eraseP hbss.ptr_mem
    change t.numBss-1 = (t.bss.eraseP (·.ptr = bss.ptr)).length
    rw [h.count]
    omega
  keys := h.keys.sublist (List.eraseP_sublist.map _)
  results_nodup := h.results_nodup.erase _
  results q hq := by
    obtain ⟨hne,hmem⟩ := (List.Nodup.mem_erase_iff h.results_nodup).mp hq
    rw [ptrs_remove]
    exact (List.Nodup.mem_erase_iff h.nodup).mpr ⟨hne,h.results q hmem⟩
  work q hq := by
    change q ∈ (if t.workBss = some bss.ptr then none else t.workBss) at hq
    split at hq
    · cases hq
    · rename_i hne
      rw [ptrs_remove]
      refine (List.Nodup.mem_erase_iff h.nodup).mpr ⟨fun heq => hne ?_,h.work q hq⟩
      rw [← heq]
      exact hq
  current q hq := by
    rw [ptrs_remove]
    refine (List.Nodup.mem_erase_iff h.nodup).mpr ⟨fun heq => hcurrent ?_,h.current q hq⟩
    rw [← heq]
    exact hq
  replays hfew := (h.replays (adds_remove bss ▸ hfew)).remove h hbss

theorem CurrentKnown.remove (h : t.WellFormed) (hk : t.CurrentKnown) (bss : WpaBss) :
    (t.wpaBssRemove bss).CurrentKnown :=
  fun b hb hcurrent => hk b ((mem_remove h).mp hb).1 hcurrent

end Remove

section Use

/-- An entry that is not in use is not the current one, and to look at it is safe. -/
theorem wpaBssInUse_ok (h : t.WellFormed) (bss : WpaBss) : ∃ used, t.wpaBssInUse bss = .ok used ∧
    (used = false → t.currentBss ≠ some bss.ptr) := by
  rw [wpaBssInUse]
  cases hc : t.currentBss with
  | none => exact ⟨_,rfl,fun _ hne => by cases hne⟩
  | some curr =>
    simp only
    split
    · exact ⟨true,rfl,fun hf => by cases hf⟩
    · rename_i hne
      obtain ⟨current,hat⟩ := Option.isSome_iff_exists.mp
        (Keyed.find_isSome_iff.mpr (h.current curr hc))
      have hat : t.at? curr = some current := hat
      rw [hat]
      exact ⟨_,rfl,fun _ heq => hne (Option.some.inj heq).symm⟩

theorem firstUnused_ok (h : t.WellFormed) (l : List WpaBss) : ∃ found, t.firstUnused l = .ok found ∧
    ∀ bss ∈ found, bss ∈ l ∧ t.currentBss ≠ some bss.ptr := by
  induction l with
  | nil => exact ⟨none,rfl,fun _ hb => by cases hb⟩
  | cons b l ih =>
    obtain ⟨used,huse,hused⟩ := wpaBssInUse_ok h b
    rw [firstUnused,huse,ok_bind]
    cases used with
    | true =>
      obtain ⟨found,hrun,hfound⟩ := ih
      exact ⟨found,hrun,fun bss hb => ⟨List.mem_cons_of_mem _ (hfound bss hb).1,(hfound bss hb).2⟩⟩
    | false =>
      refine ⟨some b,rfl,fun bss hb => ?_⟩
      cases hb
      exact ⟨List.mem_cons_self,hused rfl⟩

/-- What makes room is not the current entry. -/
theorem oldest_ok (h : t.WellFormed) (hk : t.CurrentKnown) : ∃ found, t.oldest = .ok found ∧
    ∀ bss ∈ found, bss ∈ t.bss ∧ t.currentBss ≠ some bss.ptr := by
  rw [oldest]
  split
  · rename_i bss hfind
    refine ⟨some bss,rfl,fun b hb => ?_⟩
    cases hb
    have hmem := List.mem_of_find?_eq_some hfind
    have hunknown := List.find?_some hfind
    refine ⟨hmem,fun hcurrent => ?_⟩
    rw [Bool.and_eq_true,hk bss hmem hcurrent] at hunknown
    exact absurd hunknown.1 (by decide)
  · exact firstUnused_ok h t.bss

/-- To make room does not look at the counters of a new entry. -/
theorem makeRoom_next (t : BssTable) (n i : ℕ) :
    makeRoom { t with nextPtr := n, bssNextId := i } =
      t.makeRoom.map fun t => { t with nextPtr := n, bssNextId := i } := by
  have hunused : ∀ l, firstUnused { t with nextPtr := n, bssNextId := i } l = t.firstUnused l := by
    intro l
    induction l with
    | nil => rfl
    | cons b l ih =>
      rw [firstUnused,firstUnused,ih]
      rfl
  have holdest : oldest { t with nextPtr := n, bssNextId := i } = t.oldest := by
    rw [oldest,oldest,hunused]
  rw [makeRoom,makeRoom,holdest]
  split
  · cases t.oldest with
    | error e => rfl
    | ok found => cases found <;> rfl
  · rfl

/-- Nothing was announced, and the entries are the same. -/
theorem Replays.of_same (hr : t.Replays) {t' : BssTable} (hann : t'.announced = t.announced)
    (hnext : t'.bssNextId = t.bssNextId)
    (hids : (t'.bss.map WpaBss.id).Perm (t.bss.map WpaBss.id))
    (hentries : t'.bssId.filterMap t'.entryAt = t.bssId.filterMap t.entryAt) : t'.Replays where
  next := by rw [hnext,hr.next,adds,adds,hann]
  id_lt b hb := by
    have hmem := hids.mem_iff.mp (List.mem_map_of_mem hb)
    obtain ⟨b₀,hb₀,hid⟩ := List.mem_map.mp hmem
    rw [hnext,← hid]
    exact hr.id_lt b₀ hb₀
  id_nodup := hids.nodup_iff.mpr hr.id_nodup
  possible := by rw [hann]; exact hr.possible
  after := by rw [hann,hr.after,hentries]

theorem WellFormed.replays_same (h : t.WellFormed) {t' : BssTable} (hbss : t'.bss = t.bss)
    (hids : t'.bssId = t.bssId) (hann : t'.announced = t.announced)
    (hnext : t'.bssNextId = t.bssNextId) (hfew : t'.adds < 2^32) : t'.Replays := by
  have hentry : t'.entryAt = t.entryAt := by
    funext q
    rw [entryAt,entryAt,at?,at?,hbss]
  refine (h.replays ?_).of_same hann hnext (by rw [hbss]) (by rw [hentry,hids])
  rwa [adds,hann] at hfew

theorem WellFormed.conf (h : t.WellFormed) (conf : BssConf) : WellFormed { t with conf := conf } :=
  { h with replays := h.replays_same rfl rfl rfl rfl }

/-- Room is made by removing an entry or not. -/
theorem makeRoom_ok (h : t.WellFormed) (hk : t.CurrentKnown) : ∃ t', t.makeRoom = .ok t' ∧
    t'.WellFormed ∧ t'.CurrentKnown ∧ (∀ b ∈ t'.bss, b ∈ t.bss) ∧ t'.nextPtr = t.nextPtr ∧
      t'.bssNextId = t.bssNextId ∧ t'.conf.bssidFilter = t.conf.bssidFilter := by
  rw [makeRoom]
  split
  · obtain ⟨found,hfound,hspec⟩ := oldest_ok h hk
    rw [hfound,ok_bind]
    cases found with
    | none => exact ⟨_,rfl,h.conf _,hk,fun _ hb => hb,rfl,rfl,rfl⟩
    | some bss =>
      obtain ⟨hmem,hcurrent⟩ := hspec bss rfl
      exact ⟨_,rfl,h.remove (listed_of_mem hmem) hcurrent,hk.remove h bss,
        fun b hb => ((mem_remove h).mp hb).1,rfl,rfl,rfl⟩
  · exact ⟨t,rfl,h,hk,fun _ hb => hb,rfl,rfl,rfl⟩

end Use

section Results
variable (res : WpaScanRes) (fetchTime : RelTime) (mem : ScanMemory)

/-- The table with one more entry at the end of both lists. -/
def appended (t : BssTable) (bss : WpaBss) : BssTable :=
  { t with
    nextPtr := t.nextPtr+1, bssNextId := (t.bssNextId+1)%2^32
    bss := t.bss ++ [bss], bssId := t.bssId ++ [bss.ptr], numBss := t.numBss+1
    announced := t.announced ++ [.added bss.entry] }

theorem not_fresh (h : t.WellFormed) : t.nextPtr ∉ t.ptrs := fun hmem =>
  absurd (h.fresh _ hmem) (Nat.lt_irrefl _)

theorem ptrs_appended (bss : WpaBss) : (t.appended bss).ptrs = t.ptrs ++ [bss.ptr] :=
  List.map_append

theorem nodup_appended (h : t.WellFormed) {bss : WpaBss} (hptr : bss.ptr = t.nextPtr) :
    (t.appended bss).ptrs.Nodup := by
  rw [ptrs_appended]
  exact h.nodup.append (List.nodup_singleton _) (by rw [hptr]; simpa using not_fresh h)

theorem adds_appended (bss : WpaBss) : (t.appended bss).adds = t.adds+1 := by
  change (t.announced ++ [Change.added bss.entry]).countP isAdded = _
  rw [List.countP_append]
  rfl

theorem Replays.appended (h : t.WellFormed) (hr : t.Replays) {bss : WpaBss}
    (hptr : bss.ptr = t.nextPtr) (hid : bss.id = t.bssNextId) (hfew : t.adds+1 < 2^32) :
    (t.appended bss).Replays := by
  have hnext : (t.bssNextId+1)%2^32 = t.bssNextId+1 :=
    Nat.mod_eq_of_lt (by rw [hr.next]; exact hfew)
  have hafter : ∀ e ∈ Change.after BssEntry.id [] t.announced, e.id < t.bssNextId := by
    intro e he
    rw [hr.after] at he
    obtain ⟨q,hq,hat⟩ := List.mem_filterMap.mp he
    obtain ⟨b,hb,rfl⟩ := exists_of_mem_bssId h hq
    rw [entryAt_of_mem h.nodup hb] at hat
    cases hat
    exact hr.id_lt b hb
  refine ⟨?_,?_,?_,?_,?_⟩
  · rw [adds_appended,← hr.next]
    exact hnext
  · intro b hb
    change b.id < (t.bssNextId+1)%2^32
    rw [hnext]
    rcases List.mem_append.mp hb with hb | hb
    · exact (hr.id_lt b hb).trans (Nat.lt_succ_self _)
    · rw [List.mem_singleton.mp hb,hid]
      exact Nat.lt_succ_self _
  · change ((t.bss ++ [bss]).map WpaBss.id).Nodup
    rw [List.map_append]
    refine hr.id_nodup.append (List.nodup_singleton _) ?_
    intro i hi hi'
    obtain ⟨b,hb,rfl⟩ := List.mem_map.mp hi
    rw [List.map_singleton,List.mem_singleton,hid] at hi'
    exact absurd (hr.id_lt b hb) (by omega)
  · refine (Change.possibleRun_append _).mpr ⟨hr.possible,fun e he => ?_⟩
    change e.id ≠ bss.id
    rw [hid]
    exact (hafter e he).ne
  · change Change.after BssEntry.id [] (t.announced ++ [.added bss.entry]) =
      (t.bssId ++ [bss.ptr]).filterMap (t.appended bss).entryAt
    have hnew : (t.appended bss).entryAt bss.ptr = some bss.entry :=
      entryAt_of_mem (nodup_appended h hptr) (List.mem_append_right _ (List.mem_singleton.mpr rfl))
    rw [Change.after_append,hr.after,List.filterMap_append]
    have hlast : [bss.ptr].filterMap (t.appended bss).entryAt = [bss.entry] := by
      rw [List.filterMap_cons,hnew,List.filterMap_nil]
    rw [hlast]
    refine congrArg (· ++ [bss.entry]) (List.filterMap_congr fun q hq => ?_)
    obtain ⟨b,hb,rfl⟩ := exists_of_mem_bssId h hq
    rw [entryAt_of_mem h.nodup hb,
      entryAt_of_mem (nodup_appended h hptr) (List.mem_append_left _ hb)]

theorem WellFormed.appended (h : t.WellFormed) {bss : WpaBss} (hptr : bss.ptr = t.nextPtr)
    (hid : bss.id = t.bssNextId) (hkey : bss.key ∉ t.bss.map WpaBss.key) :
    (t.appended bss).WellFormed := by
  have hmem : ∀ q ∈ t.ptrs, q ∈ (t.appended bss).ptrs := fun q hq => by
    rw [ptrs_appended]
    exact List.mem_append_left _ hq
  refine ⟨nodup_appended h hptr,fun q hq => ?_,?_,?_,?_,h.results_nodup,
    fun q hq => hmem q (h.results q hq),fun q hq => hmem q (h.work q hq),
    fun q hq => hmem q (h.current q hq),fun hfew => ?_⟩
  · rw [ptrs_appended] at hq
    rcases List.mem_append.mp hq with hq | hq
    · exact (h.fresh q hq).trans (Nat.lt_succ_self _)
    · rw [List.mem_singleton.mp hq,hptr]
      exact Nat.lt_succ_self _
  · rw [ptrs_appended]
    exact h.ids.append_right _
  · change t.numBss+1 = (t.bss ++ [bss]).length
    rw [h.count,List.length_append,List.length_singleton]
  · change ((t.bss ++ [bss]).map WpaBss.key).Nodup
    rw [List.map_append]
    exact h.keys.append (List.nodup_singleton _) (by simpa using hkey)
  · rw [adds_appended] at hfew
    exact (h.replays (by omega)).appended h hptr hid hfew

theorem wpaBssAdd_ok (h : t.WellFormed) (hk : t.CurrentKnown) {ssid : Bytes}
    (hnew : ∀ b ∈ t.bss, b.key ≠ (res.bssid,ssid)) :
    ∃ t' ptr, t.wpaBssAdd res fetchTime mem ssid = .ok (t',ptr) ∧ t'.WellFormed ∧
      t'.CurrentKnown ∧ t'.conf.bssidFilter = t.conf.bssidFilter ∧
      ∀ q ∈ ptr, q ∈ t'.ptrs ∧ q ∉ t'.lastScanRes := by
  rw [wpaBssAdd]
  split
  · exact ⟨t,none,rfl,h,hk,rfl,fun _ hq => by cases hq⟩
  · obtain ⟨t₁,hroom,h₁,hk₁,hsub,hptr₁,hid₁,hfilter₁⟩ := makeRoom_ok h hk
    have hkey : (t.newBss res fetchTime ssid).key ∉ t₁.bss.map WpaBss.key := by
      intro hmem
      obtain ⟨b,hb,hbkey⟩ := List.mem_map.mp hmem
      exact hnew b (hsub b hb) hbkey
    have happended : (t₁.appended (t.newBss res fetchTime ssid)).WellFormed :=
      h₁.appended hptr₁.symm hid₁.symm hkey
    have hunused : t.nextPtr ∉ t₁.ptrs := hptr₁ ▸ not_fresh h₁
    have heq : t₁.appended (t.newBss res fetchTime ssid) = { t₁ with
        nextPtr := t.nextPtr+1, bssNextId := (t.bssNextId+1)%2^32
        bss := t₁.bss ++ [t.newBss res fetchTime ssid]
        bssId := t₁.bssId ++ [(t.newBss res fetchTime ssid).ptr], numBss := t₁.numBss+1
        announced := t₁.announced ++ [.added (t.newBss res fetchTime ssid).entry] } := by
      rw [BssTable.appended,hptr₁,hid₁]
    simp only [makeRoom_next,hroom,Except.map,ok_bind]
    refine ⟨_,_,rfl,heq ▸ happended,?_,hfilter₁,?_⟩
    · intro b hb hcurrent
      rcases List.mem_append.mp hb with hb | hb
      · exact hk₁ b hb hcurrent
      · rw [List.mem_singleton.mp hb] at hcurrent
        exact absurd (h₁.current _ hcurrent) hunused
    · intro q hq
      cases hq
      exact ⟨List.mem_map.mpr ⟨_,List.mem_append_right _ (List.mem_singleton.mpr rfl),rfl⟩,
        fun hmem => hunused (h₁.results _ hmem)⟩

/-- An entry with other values in the place of another one, under the same address. -/
theorem WellFormed.putLast (h : t.WellFormed) {bss bss' : WpaBss} (hbss : bss ∈ t.bss)
    (hptr : bss'.ptr = bss.ptr) (hentry : bss'.entry = bss.entry) :
    (t.putLast bss.ptr bss').WellFormed := by
  have hkey : bss'.key = bss.key := congrArg (fun e : BssEntry => (e.bssid,e.ssid)) hentry
  have hptrs : (t.putLast bss.ptr bss').ptrs.Perm t.ptrs := Keyed.map_putLast_perm h.nodup hbss hptr
  have hnodup := hptrs.nodup_iff.mpr h.nodup
  have hmem : ∀ {q}, q ∈ t.ptrs → q ∈ (t.putLast bss.ptr bss').ptrs := fun hq =>
    hptrs.mem_iff.mpr hq
  refine ⟨hnodup,fun q hq => h.fresh q (hptrs.mem_iff.mp hq),h.ids.trans hptrs.symm,?_,?_,
    h.results_nodup,fun q hq => hmem (h.results q hq),fun q hq => hmem (h.work q hq),
    fun q hq => hmem (h.current q hq),fun hfew => (h.replays hfew).of_same rfl rfl ?_ ?_⟩
  · have hlen := hptrs.length_eq
    rw [ptrs,ptrs,List.length_map,List.length_map] at hlen
    exact h.count.trans hlen.symm
  · exact (Keyed.map_putLast_perm h.nodup hbss hkey).nodup_iff.mpr h.keys
  · exact Keyed.map_putLast_perm h.nodup hbss (congrArg BssEntry.id hentry)
  · refine List.filterMap_congr fun q hq => ?_
    obtain ⟨b,hb,rfl⟩ := exists_of_mem_bssId h hq
    rw [entryAt_of_mem h.nodup hb]
    by_cases hq : b.ptr = bss.ptr
    · have hlast : (t.putLast bss.ptr bss').entryAt bss'.ptr = some bss'.entry :=
        entryAt_of_mem hnodup (List.mem_append_right _ (List.mem_singleton.mpr rfl))
      rw [hptr] at hlast
      rw [Keyed.inj_of_mem h.nodup hb hbss hq,hlast,hentry]
    · exact entryAt_of_mem hnodup
        (List.mem_append_left _ ((Keyed.mem_eraseP h.nodup).mpr ⟨hb,hq⟩))

theorem CurrentKnown.putLast (hk : t.CurrentKnown) {bss bss' : WpaBss} (hbss : bss ∈ t.bss)
    (hptr : bss'.ptr = bss.ptr) (hssid : bss'.ssid = bss.ssid) :
    (t.putLast bss.ptr bss').CurrentKnown := by
  intro b hb hcurrent
  rcases List.mem_append.mp hb with hb | hb
  · exact hk b (List.mem_of_mem_eraseP hb) hcurrent
  · rw [List.mem_singleton.mp hb] at hcurrent ⊢
    have hknown := hk bss hbss (hcurrent.trans (congrArg some hptr))
    change wpaBssKnown t.conf bss' = true
    rwa [wpaBssKnown,hssid]

/-- The table with an entry that moved to a new address. -/
def moved (t : BssTable) (old : ℕ) (bss : WpaBss) : BssTable :=
  putLast { t.movePtr old t.nextPtr with nextPtr := t.nextPtr+1 } old bss

theorem WellFormed.moved (h : t.WellFormed) {bss bss' : WpaBss} (hbss : bss ∈ t.bss)
    (hptr : bss'.ptr = t.nextPtr) (hentry : bss'.entry = bss.entry) :
    (t.moved bss.ptr bss').WellFormed := by
  have hkey : bss'.key = bss.key := congrArg (fun e : BssEntry => (e.bssid,e.ssid)) hentry
  have hptrs : (t.moved bss.ptr bss').ptrs.Perm (t.nextPtr :: t.ptrs.erase bss.ptr) := by
    change ((t.bss.eraseP (·.ptr = bss.ptr)) ++ [bss']).map WpaBss.ptr |>.Perm _
    rw [List.map_append,Keyed.map_eraseP,List.map_singleton,hptr]
    exact List.perm_append_singleton _ _
  have hnodup : (t.moved bss.ptr bss').ptrs.Nodup := hptrs.nodup_iff.mpr (List.nodup_cons.mpr
    ⟨fun hnew => not_fresh h (List.mem_of_mem_erase hnew),h.nodup.erase _⟩)
  have hmem : ∀ {q}, q = t.nextPtr ∨ q ∈ t.ptrs ∧ q ≠ bss.ptr → q ∈ (t.moved bss.ptr bss').ptrs := by
    intro q hq
    rw [hptrs.mem_iff,List.mem_cons,List.Nodup.mem_erase_iff h.nodup]
    exact hq.imp id fun hq => hq.symm
  -- a variable that holds an entry holds the same entry afterwards
  have hheld : ∀ {held : Option ℕ}, (∀ q ∈ held, q ∈ t.ptrs) →
      ∀ q ∈ (if held = some bss.ptr then some t.nextPtr else held),
        q ∈ (t.moved bss.ptr bss').ptrs := by
    intro held hheld q hq
    split at hq
    · cases hq
      exact hmem (.inl rfl)
    · rename_i hne
      exact hmem (.inr ⟨hheld q hq,fun heq => hne (heq ▸ hq)⟩)
  refine ⟨hnodup,fun q hq => ?_,?_,?_,?_,?_,fun q hq => ?_,hheld h.work,hheld h.current,
    fun hfew => (h.replays hfew).of_same rfl rfl ?_ ?_⟩
  · rcases List.mem_cons.mp (hptrs.mem_iff.mp hq) with rfl | hq
    · exact Nat.lt_succ_self _
    · exact (h.fresh q (List.mem_of_mem_erase hq)).trans (Nat.lt_succ_self _)
  · exact ((Keyed.replace_perm (h.ids.mem_iff.mpr (ptr_mem hbss))).trans
      ((h.ids.erase _).cons _)).trans hptrs.symm
  · have hlen : (t.bss.eraseP (·.ptr = bss.ptr)).length+1 = t.bss.length :=
      Keyed.length_eraseP (ptr_mem hbss)
    change t.numBss = (t.bss.eraseP (·.ptr = bss.ptr) ++ [bss']).length
    rw [h.count,List.length_append,List.length_singleton,hlen]
  · exact (Keyed.map_putLast_perm h.nodup hbss hkey).nodup_iff.mpr h.keys
  · exact Keyed.nodup_replace h.results_nodup fun hnew => not_fresh h (h.results _ hnew)
  · exact hmem ((Keyed.mem_replace h.results_nodup hq).imp id fun hq => ⟨h.results q hq.1,hq.2⟩)
  · exact Keyed.map_putLast_perm h.nodup hbss (congrArg BssEntry.id hentry)
  · have hlast : (t.moved bss.ptr bss').entryAt bss'.ptr = some bss'.entry :=
      entryAt_of_mem hnodup (List.mem_append_right _ (List.mem_singleton.mpr rfl))
    refine Keyed.filterMap_replace (nodup_bssId h) ?_ fun q hq hne => ?_
    · rw [← hptr,hlast,hentry,entryAt_of_mem h.nodup hbss]
    · obtain ⟨b,hb,rfl⟩ := exists_of_mem_bssId h hq
      rw [entryAt_of_mem h.nodup hb]
      exact entryAt_of_mem hnodup
        (List.mem_append_left _ ((Keyed.mem_eraseP h.nodup).mpr ⟨hb,hne⟩))

theorem CurrentKnown.moved (h : t.WellFormed) (hk : t.CurrentKnown) {bss bss' : WpaBss}
    (hbss : bss ∈ t.bss) (hptr : bss'.ptr = t.nextPtr) (hssid : bss'.ssid = bss.ssid) :
    (t.moved bss.ptr bss').CurrentKnown := by
  intro b hb hcurrent
  change (if t.currentBss = some bss.ptr then some t.nextPtr else t.currentBss) = some b.ptr
    at hcurrent
  rcases List.mem_append.mp hb with hb | hb
  · have hb : b ∈ t.bss := List.mem_of_mem_eraseP hb
    split at hcurrent
    · exact absurd (Option.some.inj hcurrent ▸ ptr_mem hb) (not_fresh h)
    · exact hk b hb hcurrent
  · rw [List.mem_singleton.mp hb] at hcurrent ⊢
    have hcurr : t.currentBss = some bss.ptr := by
      split at hcurrent
      · assumption
      · exact absurd (h.current _ (hcurrent.trans (congrArg some hptr))) (not_fresh h)
    have hknown := hk bss hbss hcurr
    change wpaBssKnown t.conf bss' = true
    rwa [wpaBssKnown,hssid]

theorem wpaBssUpdate_ok (h : t.WellFormed) (hk : t.CurrentKnown) {bss : WpaBss} (hbss : bss ∈ t.bss)
    (hbssid : bss.bssid = res.bssid) :
    (t.wpaBssUpdate res fetchTime mem bss).1.WellFormed ∧
      (t.wpaBssUpdate res fetchTime mem bss).1.CurrentKnown ∧
      (t.wpaBssUpdate res fetchTime mem bss).2 ∈ (t.wpaBssUpdate res fetchTime mem bss).1.ptrs := by
  have hentry : ∀ b : WpaBss, b.id = bss.id → b.bssid = res.bssid → b.ssid = bss.ssid →
      b.entry = bss.entry := fun b hid hb hssid => by
    rw [WpaBss.entry,WpaBss.entry,hid,hb,hssid,hbssid]
  have hlast : ∀ (l : List WpaBss) (b : WpaBss), b.ptr ∈ (l ++ [b]).map WpaBss.ptr := fun l b =>
    List.mem_map_of_mem (List.mem_append_right _ (List.mem_singleton.mpr rfl))
  rw [wpaBssUpdate]
  simp only
  split
  · exact ⟨h.putLast hbss rfl (hentry _ rfl rfl rfl),hk.putLast hbss rfl rfl,hlast _ _⟩
  · split
    · exact ⟨h.putLast hbss rfl (hentry _ rfl rfl rfl),hk.putLast hbss rfl rfl,hlast _ _⟩
    · split
      · exact ⟨h.putLast hbss rfl (hentry _ rfl rfl rfl),hk.putLast hbss rfl rfl,hlast _ _⟩
      · split
        · exact ⟨h.putLast hbss rfl (hentry _ rfl rfl rfl),hk.putLast hbss rfl rfl,hlast _ _⟩
        · exact ⟨h.moved hbss rfl (hentry _ rfl rfl rfl),hk.moved h hbss rfl rfl,hlast _ _⟩

theorem WellFormed.pushResult (h : t.WellFormed) {ptr : ℕ} (hptr : ptr ∈ t.ptrs)
    (hnew : ptr ∉ t.lastScanRes) : (t.pushResult mem ptr).WellFormed := by
  have hnodup : (t.lastScanRes ++ [ptr]).Nodup :=
    h.results_nodup.append (List.nodup_singleton _) (by simpa using hnew)
  have hmem : ∀ q ∈ t.lastScanRes ++ [ptr], q ∈ t.ptrs := fun q hq => by
    rcases List.mem_append.mp hq with hq | hq
    · exact h.results q hq
    · rwa [List.mem_singleton.mp hq]
  rw [BssTable.pushResult]
  split
  · split
    · exact h
    · exact { h with
        results_nodup := hnodup, results := hmem, replays := h.replays_same rfl rfl rfl rfl }
  · exact { h with
      results_nodup := hnodup, results := hmem, replays := h.replays_same rfl rfl rfl rfl }

theorem CurrentKnown.pushResult (hk : t.CurrentKnown) (ptr : ℕ) :
    (t.pushResult mem ptr).CurrentKnown := by
  rw [BssTable.pushResult]
  split
  · split <;> exact hk
  · exact hk

theorem pushResult_conf (ptr : ℕ) : (t.pushResult mem ptr).conf = t.conf := by
  rw [BssTable.pushResult]
  split
  · split <;> rfl
  · rfl

theorem wpaBssUpdate_conf (bss : WpaBss) : (t.wpaBssUpdate res fetchTime mem bss).1.conf = t.conf := by
  rw [wpaBssUpdate]
  simp only
  split
  · rfl
  · split
    · rfl
    · split
      · rfl
      · split <;> rfl

/-- A scan result that passes the filter. -/
theorem wpaBssUpdateScanRes_ok (h : t.WellFormed) (hk : t.CurrentKnown)
    (hfilter : filterBssidMatch t.conf res.bssid) :
    ∃ t', t.wpaBssUpdateScanRes res fetchTime mem = .ok t' ∧ t'.WellFormed ∧ t'.CurrentKnown ∧
      t'.conf.bssidFilter = t.conf.bssidFilter := by
  rw [wpaBssUpdateScanRes]
  split
  · exact ⟨t,rfl,h,hk,rfl⟩
  · rename_i ssid hssid
    rw [wpaBssGet,if_pos hfilter]
    split
    · rename_i hnone
      have hnew : ∀ b ∈ t.bss, b.key ≠ (res.bssid,ssid) := by
        intro b hb heq
        have hne := List.find?_eq_none.mp hnone b hb
        rw [WpaBss.key,Prod.mk.injEq] at heq
        simp [heq] at hne
      obtain ⟨t₁,ptr,hadd,h₁,hk₁,hconf₁,hptr⟩ := wpaBssAdd_ok res fetchTime mem h hk hnew
      rw [hadd]
      cases ptr with
      | none => exact ⟨t₁,rfl,h₁,hk₁,hconf₁⟩
      | some ptr =>
        obtain ⟨hmem,hnotmem⟩ := hptr ptr rfl
        refine ⟨_,rfl,h₁.pushResult mem hmem hnotmem,hk₁.pushResult mem ptr,?_⟩
        change (t₁.pushResult mem ptr).conf.bssidFilter = _
        rw [pushResult_conf,hconf₁]
    · rename_i bss hfind
      have hbss := List.mem_of_find?_eq_some hfind
      have hsome := List.find?_some hfind
      rw [decide_eq_true_iff] at hsome
      obtain ⟨h₁,hk₁,hptr⟩ := wpaBssUpdate_ok res fetchTime mem h hk hbss hsome.1
      have hconf₁ := wpaBssUpdate_conf (t := t) res fetchTime mem bss
      simp only
      split
      · exact ⟨_,rfl,h₁,hk₁,by rw [hconf₁]⟩
      · rename_i hnotmem
        refine ⟨_,rfl,h₁.pushResult mem hptr hnotmem,hk₁.pushResult mem _,?_⟩
        rw [pushResult_conf,hconf₁]

end Results

section Rounds

theorem updateScanRes_ok (fetchTime : RelTime) {results : List (WpaScanRes × ScanMemory)}
    (h : t.WellFormed) (hk : t.CurrentKnown)
    (hfilter : ∀ r ∈ results, filterBssidMatch t.conf r.1.bssid) :
    ∃ t', updateScanRes fetchTime results t = .ok t' ∧ t'.WellFormed ∧ t'.CurrentKnown := by
  induction results generalizing t with
  | nil => exact ⟨t,rfl,h,hk⟩
  | cons r results ih =>
    obtain ⟨t₁,hrun,h₁,hk₁,hconf₁⟩ := wpaBssUpdateScanRes_ok r.1 fetchTime r.2 h hk
      (hfilter r List.mem_cons_self)
    obtain ⟨t',hrest,h',hk'⟩ := ih h₁ hk₁ fun r' hr' => by
      rw [filterBssidMatch,hconf₁]
      exact hfilter r' (List.mem_cons_of_mem _ hr')
    exact ⟨t',by rw [updateScanRes,hrun,ok_bind,hrest],h',hk'⟩

theorem WellFormed.start (h : t.WellFormed) : t.wpaBssUpdateStart.WellFormed :=
  { h with
    results_nodup := List.nodup_nil, results := fun _ hq => by cases hq
    replays := h.replays_same rfl rfl rfl rfl }

theorem map_setMiss {β : Type} {f : WpaBss → β} (hf : ∀ b n, f { b with scanMissCount := n } = f b)
    (ptr n : ℕ) : (t.setMiss ptr n).bss.map f = t.bss.map f := by
  change (t.bss.map _).map f = _
  rw [List.map_map]
  refine List.map_congr_left fun b _ => ?_
  change f (if b.ptr = ptr then _ else _) = f b
  split
  · exact hf b n
  · rfl

theorem ptrs_setMiss (ptr n : ℕ) : (t.setMiss ptr n).ptrs = t.ptrs :=
  map_setMiss (fun _ _ => rfl) ptr n

theorem Listed.setMiss {bss : WpaBss} (h : t.Listed bss) (ptr n : ℕ) :
    (t.setMiss ptr n).Listed bss := by
  obtain ⟨b,hb,hptr,hentry⟩ := h
  refine ⟨_,List.mem_map_of_mem hb,?_⟩
  split <;> exact ⟨hptr,hentry⟩

theorem WellFormed.setMiss (h : t.WellFormed) (ptr n : ℕ) : (t.setMiss ptr n).WellFormed := by
  have hptrs := ptrs_setMiss (t := t) ptr n
  have hnodup : (t.setMiss ptr n).ptrs.Nodup := hptrs ▸ h.nodup
  refine ⟨hnodup,fun q hq => h.fresh q (hptrs ▸ hq),hptrs ▸ h.ids,?_,?_,h.results_nodup,
    fun q hq => hptrs ▸ h.results q hq,fun q hq => hptrs ▸ h.work q hq,
    fun q hq => hptrs ▸ h.current q hq,fun hfew => (h.replays hfew).of_same rfl rfl ?_ ?_⟩
  · exact h.count.trans (List.length_map _).symm
  · rw [map_setMiss (f := WpaBss.key) fun _ _ => rfl]
    exact h.keys
  · rw [map_setMiss (f := WpaBss.id) fun _ _ => rfl]
  · refine List.filterMap_congr fun q hq => ?_
    obtain ⟨b,hb,rfl⟩ := exists_of_mem_bssId h hq
    rw [entryAt_of_mem h.nodup hb]
    exact ((listed_of_mem hb).setMiss ptr n).entryAt hnodup

/-- The entries that a loop has still to look at stay in the table. -/
theorem Listed.remove (h : t.WellFormed) {bss b : WpaBss} (hb : t.Listed b) (hne : b.ptr ≠ bss.ptr) :
    (t.wpaBssRemove bss).Listed b := by
  obtain ⟨b₀,hb₀,hptr,hentry⟩ := hb
  exact ⟨b₀,(mem_remove h).mpr ⟨hb₀,fun heq => hne (hptr ▸ heq)⟩,hptr,hentry⟩

variable {l : List WpaBss}

theorem WellFormed.remove_head (h : t.WellFormed) {b : WpaBss}
    (hl : ((b :: l).map WpaBss.ptr).Nodup) (hlist : ∀ b' ∈ b :: l, t.Listed b')
    (hcurrent : t.currentBss ≠ some b.ptr) :
    (t.wpaBssRemove b).WellFormed ∧ ∀ b' ∈ l, (t.wpaBssRemove b).Listed b' := by
  obtain ⟨hb,-⟩ := List.nodup_cons.mp hl
  refine ⟨h.remove (hlist b List.mem_cons_self) hcurrent,fun b' hb' => ?_⟩
  refine (hlist b' (List.mem_cons_of_mem _ hb')).remove h fun heq => hb ?_
  rw [← heq]
  exact List.mem_map_of_mem hb'

theorem expire_ok (info : Option ScanInfo) (h : t.WellFormed) (hl : (l.map WpaBss.ptr).Nodup)
    (hlist : ∀ b ∈ l, t.Listed b) : ∃ t', expire info l t = .ok t' ∧ t'.WellFormed := by
  induction l generalizing t with
  | nil => exact ⟨t,rfl,h⟩
  | cons b l ih =>
    have hrest : ∀ b' ∈ l, t.Listed b' := fun b' hb' => hlist b' (List.mem_cons_of_mem _ hb')
    obtain ⟨used,huse,hused⟩ := wpaBssInUse_ok h b
    rw [expire,huse,ok_bind]
    cases used with
    | true => exact ih h hl.of_cons hrest
    | false =>
      simp only [Bool.false_eq_true,if_false]
      split
      · exact ih h hl.of_cons hrest
      · generalize (if b.lastUpdateIdx < t.bssUpdateIdx then b.scanMissCount+1
          else b.scanMissCount) = miss
        split
        · obtain ⟨h',hlist'⟩ := (h.setMiss b.ptr miss).remove_head hl
            (fun b' hb' => (hlist b' hb').setMiss _ _) (hused rfl)
          exact ih h' hl.of_cons hlist'
        · exact ih (h.setMiss _ _) hl.of_cons fun b' hb' => (hrest b' hb').setMiss _ _

theorem flushByAge_ok (limit : RelTime) (h : t.WellFormed) (hl : (l.map WpaBss.ptr).Nodup)
    (hlist : ∀ b ∈ l, t.Listed b) : ∃ t', flushByAge limit l t = .ok t' ∧ t'.WellFormed := by
  induction l generalizing t with
  | nil => exact ⟨t,rfl,h⟩
  | cons b l ih =>
    obtain ⟨used,huse,hused⟩ := wpaBssInUse_ok h b
    rw [flushByAge,huse,ok_bind]
    cases used with
    | true => exact ih h hl.of_cons fun b' hb' => hlist b' (List.mem_cons_of_mem _ hb')
    | false =>
      simp only [Bool.false_eq_true,if_false]
      split
      · obtain ⟨h',hlist'⟩ := h.remove_head hl hlist (hused rfl)
        exact ih h' hl.of_cons hlist'
      · exact ⟨t,rfl,h⟩

theorem flush_ok (h : t.WellFormed) (hl : (l.map WpaBss.ptr).Nodup)
    (hlist : ∀ b ∈ l, t.Listed b) : ∃ t', flush l t = .ok t' ∧ t'.WellFormed := by
  induction l generalizing t with
  | nil => exact ⟨t,rfl,h⟩
  | cons b l ih =>
    obtain ⟨used,huse,hused⟩ := wpaBssInUse_ok h b
    rw [flush,huse,ok_bind]
    cases used with
    | true => exact ih h hl.of_cons fun b' hb' => hlist b' (List.mem_cons_of_mem _ hb')
    | false =>
      obtain ⟨h',hlist'⟩ := h.remove_head hl hlist (hused rfl)
      exact ih h' hl.of_cons hlist'

theorem getScanResults_ok (h : t.WellFormed) (hk : t.CurrentKnown)
    (results : List (WpaScanRes × ScanMemory)) (fetchTime : RelTime) (info : Option ScanInfo)
    (newScan : Bool) :
    ∃ t', t.getScanResults results fetchTime info newScan = .ok t' ∧ t'.WellFormed := by
  have hfilter : ∀ r ∈ results.filter (filterBssidMatch t.conf ·.1.bssid),
      filterBssidMatch t.wpaBssUpdateStart.conf r.1.bssid := fun r hr => (List.mem_filter.mp hr).2
  obtain ⟨t₁,hrun,h₁,-⟩ := updateScanRes_ok fetchTime h.start hk hfilter
  rw [getScanResults,hrun,ok_bind,wpaBssUpdateEnd]
  split
  · exact ⟨t₁,rfl,h₁⟩
  · exact expire_ok info h₁ h₁.nodup fun _ hb => listed_of_mem hb

end Rounds

section Runs

/-- The tables that the daemon can come to. A round of scan results is handled while the current entry
belongs to a network; an entry becomes current or pending when it is there, and a lost one is
removed after it was left. -/
inductive Reached : BssTable → Prop
  | init (conf : BssConf) : Reached (wpaBssInit conf)
  | scan {t t' : BssTable} (results : List (WpaScanRes × ScanMemory)) (fetchTime : RelTime)
    (info : Option ScanInfo) (newScan : Bool) (h : Reached t) (known : t.CurrentKnown)
    (run : t.getScanResults results fetchTime info newScan = .ok t') : Reached t'
  | age {t t' : BssTable} (now : RelTime) (age : ℤ) (h : Reached t)
    (run : t.wpaBssFlushByAge now age = .ok t') : Reached t'
  | flush {t t' : BssTable} (h : Reached t) (run : t.wpaBssFlush = .ok t') : Reached t'
  | conf {t : BssTable} (conf : BssConf) (h : Reached t) : Reached { t with conf := conf }
  | current {t : BssTable} (currentBss : Option ℕ) (bssid pendingBssid : Vector UInt8 6)
    (h : Reached t) (there : ∀ q ∈ currentBss, q ∈ t.ptrs) :
    Reached { t with currentBss := currentBss, bssid := bssid, pendingBssid := pendingBssid }
  | work {t : BssTable} (workBss : Option ℕ) (bssRemoved : Bool) (h : Reached t)
    (there : ∀ q ∈ workBss, q ∈ t.ptrs) :
    Reached { t with workBss := workBss, bssRemoved := bssRemoved }
  | lost {t : BssTable} (bss : WpaBss) (h : Reached t) (there : bss ∈ t.bss)
    (left : t.currentBss = none) : Reached (t.wpaBssRemove bss)

theorem wellFormed_init (conf : BssConf) : (wpaBssInit conf).WellFormed where
  nodup := List.nodup_nil
  fresh _ hq := by cases hq
  ids := List.Perm.refl _
  count := rfl
  keys := List.nodup_nil
  results_nodup := List.nodup_nil
  results _ hq := by cases hq
  work _ hq := by cases hq
  current _ hq := by cases hq
  replays _ := ⟨rfl,fun _ hb => (by cases hb),List.nodup_nil,trivial,rfl⟩

theorem Reached.wellFormed (h : Reached t) : t.WellFormed := by
  induction h with
  | init conf => exact wellFormed_init conf
  | scan results fetchTime info newScan _ known run ih =>
    obtain ⟨t',hrun,h'⟩ := getScanResults_ok ih known results fetchTime info newScan
    rw [hrun] at run
    cases run
    exact h'
  | age now age _ run ih =>
    obtain ⟨t',hrun,h'⟩ := flushByAge_ok (now.1-age,now.2) ih ih.nodup fun _ hb => listed_of_mem hb
    rw [wpaBssFlushByAge,hrun] at run
    cases run
    exact h'
  | flush _ run ih =>
    obtain ⟨t',hrun,h'⟩ := flush_ok ih ih.nodup fun _ hb => listed_of_mem hb
    rw [wpaBssFlush,hrun] at run
    cases run
    exact h'
  | conf conf _ ih => exact ih.conf conf
  | current currentBss bssid pendingBssid _ there ih =>
    exact { ih with current := there, replays := ih.replays_same rfl rfl rfl rfl }
  | work workBss bssRemoved _ there ih =>
    exact { ih with work := there, replays := ih.replays_same rfl rfl rfl rfl }
  | lost bss _ there left ih =>
    exact ih.remove (listed_of_mem there) (by rw [left]; exact nofun)

def sampleConf (ssids : List Bytes) : BssConf :=
  ⟨false,ssids,2,2,false,(0,0),none,false,fun _ => false⟩

/-- An AP with the last byte of its BSSID, and with its elements. An entry that has no room for them
moves. -/
def sampleRes (last : UInt8) (ies : Bytes) : WpaScanRes × ScanMemory :=
  (⟨#v[2,0,0,0,0,last],2412,0,ies,[]⟩,⟨true,true,true,true⟩)

def sampleRun (t : BssTable) (results : List (WpaScanRes × ScanMemory)) : Except BssFault BssTable :=
  t.getScanResults results (100,0) none true

/-- The table after a round, for a round that is handled. -/
def sampleRound (t : BssTable) (results : List (WpaScanRes × ScanMemory)) : BssTable :=
  (sampleRun t results).toOption.getD t

theorem Reached.sampleRound (h : Reached t) (hk : t.CurrentKnown)
    (results : List (WpaScanRes × ScanMemory)) : Reached (t.sampleRound results) := by
  obtain ⟨t',hrun,-⟩ := getScanResults_ok h.wellFormed hk results (100,0) none true
  rw [BssTable.sampleRound,sampleRun,hrun]
  exact h.scan _ _ _ _ hk hrun

/-- Two APs fill the table, and the first one becomes the current one. -/
def sampleFull (ssids : List Bytes) : BssTable :=
  { (wpaBssInit (sampleConf ssids)).sampleRound [sampleRes 1 [0,1,97],sampleRes 2 [0,1,98]] with
    currentBss := some 0 }

/-- The current entry grows, and then an unknown one is removed for a third AP. -/
def sampleTable : BssTable :=
  ((sampleFull [[97]]).sampleRound [sampleRes 1 [0,1,97,1,1,2]]).sampleRound [sampleRes 3 [0,1,99]]

theorem sampleFull_reached (ssids : List Bytes)
    (there : 0 ∈ (sampleFull ssids).ptrs) : Reached (sampleFull ssids) := by
  have hk : (wpaBssInit (sampleConf ssids)).CurrentKnown := fun _ hb => by cases hb
  exact ((Reached.init _).sampleRound hk _).current _ _ _ fun q hq => by
    rw [← Option.some.inj hq]
    exact there

theorem sampleTable_reached : Reached sampleTable :=
  ((sampleFull_reached _ (by decide +kernel)).sampleRound (by decide +kernel) _).sampleRound
    (by decide +kernel) _

/-- In every run the two lists have the same entries, no two of them with the same BSSID and SSID,
and what the variables hold are entries that were not given back. No loop over the table looks at
such an entry, as long as the current one belongs to a network. -/
theorem no_freed_entry (h : Reached t) :
    (t.bssId.Perm t.ptrs ∧ t.numBss = t.bss.length ∧ (t.bss.map WpaBss.key).Nodup) ∧
    (t.lastScanRes.Nodup ∧ ∀ q, q ∈ t.lastScanRes ∨ t.currentBss = some q ∨ t.workBss = some q →
      q ∈ t.ptrs) ∧
    (t.CurrentKnown → ∀ results fetchTime info newScan,
      ∃ t', t.getScanResults results fetchTime info newScan = .ok t') ∧
    (∀ now age, ∃ t', t.wpaBssFlushByAge now age = .ok t') ∧ ∃ t', t.wpaBssFlush = .ok t' := by
  have hwf := h.wellFormed
  refine ⟨⟨hwf.ids,hwf.count,hwf.keys⟩,⟨hwf.results_nodup,?_⟩,?_,?_,?_⟩
  · rintro q (hq | hq | hq)
    · exact hwf.results q hq
    · exact hwf.current q hq
    · exact hwf.work q hq
  · intro hk results fetchTime info newScan
    obtain ⟨t',hrun,-⟩ := getScanResults_ok hwf hk results fetchTime info newScan
    exact ⟨t',hrun⟩
  · intro now age
    obtain ⟨t',hrun,-⟩ := flushByAge_ok (now.1-age,now.2) hwf hwf.nodup fun _ hb => listed_of_mem hb
    exact ⟨t',hrun⟩
  · obtain ⟨t',hrun,-⟩ := flush_ok hwf hwf.nodup fun _ hb => listed_of_mem hb
    exact ⟨t',hrun⟩

theorem no_freed_entry_sample : sampleTable.currentBss = some 2 ∧ sampleTable.bssId = [2,3] ∧
    sampleTable.bssId.Perm sampleTable.ptrs ∧ 2 ∈ sampleTable.ptrs :=
  have h := no_freed_entry sampleTable_reached
  ⟨by decide +kernel,by decide +kernel,h.1.1,h.2.1.2 2 (.inr (.inl (by decide +kernel)))⟩

-- The current entry of no network is removed for a new one, and then the loop over the table looks
-- at it.
example : (sampleRun (sampleFull []) [sampleRes 3 [0,1,99]]).toOption.isNone := by decide +kernel

/-- The announcements of a run name only entries that are there, and together they give the table in
the order of the identities. -/
theorem announced_table (h : Reached t) (hfew : t.adds < 2^32) :
    Change.PossibleRun BssEntry.id [] t.announced ∧
      Change.after BssEntry.id [] t.announced = t.bssId.filterMap t.entryAt ∧
      (Change.after BssEntry.id [] t.announced).Perm (t.bss.map WpaBss.entry) := by
  have hwf := h.wellFormed
  have hr := hwf.replays hfew
  refine ⟨hr.possible,hr.after,?_⟩
  have hentries : t.ptrs.filterMap t.entryAt = t.bss.map WpaBss.entry := by
    rw [ptrs,List.filterMap_map,← List.filterMap_eq_map]
    exact List.filterMap_congr fun b hb => entryAt_of_mem hwf.nodup hb
  rw [hr.after,← hentries]
  exact hwf.ids.filterMap _

theorem announced_table_sample : sampleTable.announced.length = 4 ∧
    Change.after BssEntry.id [] sampleTable.announced =
      sampleTable.bssId.filterMap sampleTable.entryAt :=
  ⟨by decide +kernel,(announced_table sampleTable_reached (by decide +kernel)).2.1⟩

end Runs

end BssTable

end WpaCliWrapper

