import WpaCliWrapper.Oper.ScanItems
import WpaCliWrapper.Supplicant.ScanResults

/-! The items that the wrapper reads from the lines that the daemon wrote. -/
namespace WpaCliWrapper
open CText

/-- An item with the fields of a line, and an SSID that can be decoded. -/
structure Recovers (item : WifiScanItem) (l : ScanLine) : Prop where
  bssid : item.bssid.1 = l.bss.macTxt
  frequency : item.frequency = l.bss.freq
  signalLevel : item.signalLevel = l.bss.level
  flags : item.flags.1 = l.flags
  ssid : ∀ maxlen, l.bss.ssid.length < maxlen → printfDecode maxlen item.ssid.1 = l.bss.ssid

/-- Each line of the reply gives one item, in order. -/
def Decodes (cfg : SupplicantConfig) (size : ℕ) (bsss : List Bss) : Prop :=
  ∃ items, scanItems (ctrlIfaceScanResults cfg size bsss) = .ok items ∧
    List.Forall₂ Recovers items (scanLines cfg size bsss)

/-- No field of the line is empty. -/
def ScanLine.Full (l : ScanLine) : Prop := l.flags ≠ [] ∧ l.bss.ssid ≠ []

section Fields

theorem macTxt_length (bss : Bss) : bss.macTxt.length = 17 := by
  have hlen := bss.bssid_length
  have hne : bss.bssid ≠ [] := fun hnil => by rw [hnil] at hlen; cases hlen
  have hmac := macStr_length hne
  rw [Bss.macTxt]
  omega

theorem decimal_ne_nil (z : ℤ) : decimal z ≠ [] := by
  obtain ⟨c,s,hs,-⟩ := decimal_head z
  rw [hs]
  exact List.cons_ne_nil c s

theorem ssidTxt_eq_nil_iff (bss : Bss) : bss.ssidTxt = [] ↔ bss.ssid = [] := by
  rw [ssidTxt_eq,List.flatMap_eq_nil_iff]
  constructor
  · intro h
    apply List.eq_nil_iff_forall_not_mem.mpr
    intro c hc
    exact encodeByte_ne_nil c (h c hc)
  · intro h c hc
    rw [h] at hc
    cases hc

theorem ssidTxt_length (bss : Bss) : bss.ssidTxt.length ≤ 128 := by
  have hlen : ∀ data : Bytes, (data.flatMap encodeByte).length ≤ 4*data.length := by
    intro data
    induction data with
    | nil => exact Nat.le_refl 0
    | cons c data ih =>
      have hbyte := encodeByte_length c
      rw [List.flatMap_cons,List.length_append,List.length_cons]
      omega
  have hssid : bss.ssid.length ≤ 32 := bss.ssid_length
  have := hlen bss.ssid
  rw [ssidTxt_eq]
  omega

theorem plain_no_tab {txt : Bytes} (h : plain txt = true) : ∀ c ∈ txt, (c == 9) = false :=
  fun c hc => beq_false_of_ne (plain_iff.mp h c hc).2.1

theorem isWord_of_plain {txt : Bytes} (h : plain txt = true) (hne : txt ≠ []) :
    IsWord (· == 9) txt := ⟨hne,plain_no_tab h⟩

/-- The fields of a line: the empty ones are lost. -/
theorem words_scanLine {l : ScanLine} (h : plain l.flags = true) :
    words (· == 9) l.text = l.bss.macTxt :: decimal l.bss.freq :: decimal l.bss.level ::
      ((if l.flags = [] then [] else [l.flags]) ++
        if l.bss.ssid = [] then [] else [l.bss.ssidTxt]) := by
  have htab : ((9 : UInt8) == 9) = true := rfl
  have hmac : IsWord (· == 9) l.bss.macTxt := by
    refine isWord_of_plain (macTxt_plain l.bss) fun hnil => ?_
    have := macTxt_length l.bss
    rw [hnil] at this
    cases this
  have hnum : ∀ z, IsWord (· == 9) (decimal z) := fun z =>
    isWord_of_plain (decimal_plain z) (decimal_ne_nil z)
  have htext : l.text = l.bss.macTxt ++ 9 :: (decimal l.bss.freq ++ 9 ::
      (decimal l.bss.level ++ 9 :: (l.flags ++ 9 :: l.bss.ssidTxt))) := by
    simp [ScanLine.text,Bss.headTxt]
  rw [htext,words_word_cons hmac htab,words_word_cons (hnum _) htab,words_word_cons (hnum _) htab,
    words_append_cons (p := (· == 9)) l.flags _ htab,words_field (plain_no_tab h),
    words_field (plain_no_tab (ssidTxt_plain l.bss))]
  simp only [ssidTxt_eq_nil_iff]

theorem atoi_decimal {z : ℤ} (h : -2^31 ≤ z ∧ z < 2^31) : atoi (decimal z) = z := by
  have hread : atoi (decimal z ++ []) = z := atoi_decimal_append h (by simp)
  rwa [List.append_nil] at hread

/-- Every field of a line fits a row. -/
theorem scanLine_rows {l : ScanLine} (h : plain l.flags = true) (hlen : l.flags.length ≤ 255) :
    ∀ p ∈ words (· == 9) l.text, p.length ≤ 255 := by
  have hmac := macTxt_length l.bss
  have hssid := ssidTxt_length l.bss
  have hnum : ∀ z : ℤ, -2^31 ≤ z ∧ z < 2^31 → (decimal z).length ≤ 255 := fun z hz =>
    Nat.le_trans (decimal_length hz) (by decide)
  rw [words_scanLine h]
  intro p hp
  simp only [List.mem_cons,List.mem_append] at hp
  rcases hp with rfl | rfl | rfl | hp | hp
  · omega
  · exact hnum _ l.bss.freq_int
  · exact hnum _ l.bss.level_int
  · split at hp
    · cases hp
    · rw [List.mem_singleton.mp hp]
      exact hlen
  · split at hp
    · cases hp
    · rw [List.mem_singleton.mp hp]
      omega

theorem scanLine_item {l : ScanLine} (h : plain l.flags = true) (hlen : l.flags.length ≤ 255)
    (hfull : l.Full) : ∃ item, getWifiScanItemFromLine l.text = .ok (some item) ∧
      Recovers item l := by
  have hmac : l.bss.macTxt.length < 18 := by
    rw [macTxt_length]
    decide
  have hflags : l.flags.length < 256 := Nat.lt_succ_of_le hlen
  have hssid : l.bss.ssidTxt.length < 256 := Nat.lt_of_le_of_lt (ssidTxt_length l.bss) (by decide)
  have hssid_length : l.bss.ssid.length ≤ ssidMaxLen := l.bss.ssid_length
  have hwords := words_scanLine h
  rw [if_neg hfull.1,if_neg hfull.2] at hwords
  refine ⟨⟨⟨l.bss.macTxt,hmac⟩,l.bss.freq,l.bss.level,⟨l.flags,hflags⟩,⟨l.bss.ssidTxt,hssid⟩⟩,
    getWifiScanItemFromLine_ok_iff.mpr ⟨?_,scanLine_rows h hlen,?_⟩,rfl,rfl,rfl,rfl,?_⟩
  · rw [hwords]
    rfl
  · rw [hwords]
    exact ⟨_,_,rfl,(atoi_decimal l.bss.freq_int).symm,(atoi_decimal l.bss.level_int).symm⟩
  · exact fun maxlen hmax => printfDecode_printfEncode (by omega) hmax

theorem scanLine_no_item {l : ScanLine} (h : plain l.flags = true) (hlen : l.flags.length ≤ 255)
    (hfull : ¬ l.Full) : getWifiScanItemFromLine l.text = .ok none := by
  have hshort : (words (· == 9) l.text).length < 5 := by
    rw [words_scanLine h]
    by_cases hnil : l.flags = []
    · rw [if_pos hnil]
      split
      all_goals simp
    · have hnil' : l.bss.ssid = [] := by
        by_contra hne
        exact hfull ⟨hnil,hne⟩
      rw [if_neg hnil,if_pos hnil']
      simp
  exact getWifiScanItemFromLine_ok_iff.mpr
    ⟨Nat.le_of_lt hshort,scanLine_rows h hlen,Nat.ne_of_lt hshort⟩

/-- A line can be parsed; there is an item if no field is empty, and it has the fields. -/
theorem getWifiScanItem_scanLine {l : ScanLine} (h : plain l.flags = true)
    (hlen : l.flags.length ≤ 255) : ∃ item, getWifiScanItemFromLine l.text = .ok item ∧
      (item.isSome = true ↔ l.Full) ∧ ∀ i ∈ item, Recovers i l := by
  by_cases hfull : l.Full
  · obtain ⟨item,hitem,hrec⟩ := scanLine_item h hlen hfull
    refine ⟨some item,hitem,iff_of_true rfl hfull,?_⟩
    rintro i ⟨⟩
    exact hrec
  · exact ⟨none,scanLine_no_item h hlen hfull,iff_of_false (by simp) hfull,fun i hi => by cases hi⟩

end Fields

section Lines

/-- The header without its newline. -/
def scanTitle : Bytes := ascii "bssid / frequency / signal level / flags / ssid"

theorem getWifiScanItem_title : getWifiScanItemFromLine scanTitle = .ok none := rfl

theorem scanLine_clean {l : ScanLine} (h : plain l.flags = true) :
    l.text ≠ [] ∧ ∀ c ∈ l.text, c ≠ 0 ∧ c ≠ 10 := by
  have htab : ∀ c : UInt8, c = 9 → c ≠ 0 ∧ c ≠ 10 := by
    rintro c rfl
    decide
  refine ⟨fun hnil => ?_,fun c hc => ?_⟩
  · have := congrArg List.length hnil
    rw [ScanLine.text,Bss.headTxt,List.length_append,List.length_append,macTxt_length,
      List.length_nil] at this
    omega
  · simp only [ScanLine.text,Bss.headTxt,List.mem_append,List.mem_cons,List.not_mem_nil,
      or_false] at hc
    rcases hc with (hc | hc | hc | hc | hc | hc) | hc | hc | hc
    · exact plain_clean (macTxt_plain l.bss) c hc
    · exact htab c hc
    · exact plain_clean (decimal_plain _) c hc
    · exact htab c hc
    · exact plain_clean (decimal_plain _) c hc
    · exact htab c hc
    · exact plain_clean h c hc
    · exact htab c hc
    · exact plain_clean (ssidTxt_plain l.bss) c hc

/-- The wrapper splits a reply into the lines that were written. -/
theorem words_reply {ls : List ScanLine} (h : ∀ l ∈ ls, plain l.flags = true) :
    words (· == 10) (cstr (scanHeader ++ ls.flatMap fun l => l.text ++ [10])) =
      scanTitle :: ls.map ScanLine.text := by
  have hreply : scanHeader ++ (ls.flatMap fun l => l.text ++ [10]) =
      (scanTitle :: ls.map ScanLine.text).flatMap (· ++ [10]) := by
    rw [List.flatMap_cons,List.flatMap_map]
    rfl
  have htitle : plain scanTitle = true := rfl
  have hclean : ∀ line ∈ scanTitle :: ls.map ScanLine.text,
      line ≠ [] ∧ ∀ c ∈ line, c ≠ 0 ∧ c ≠ 10 := by
    intro line hline
    rcases List.mem_cons.mp hline with rfl | hline
    · exact ⟨by decide,plain_clean htitle⟩
    · obtain ⟨l,hl,rfl⟩ := List.mem_map.mp hline
      exact scanLine_clean (h l hl)
  rw [hreply,cstr_eq_self]
  · apply words_terminated
    · rfl
    · intro line hline
      obtain ⟨hne,hall⟩ := hclean line hline
      exact ⟨hne,fun c hc => beq_false_of_ne (hall c hc).2⟩
  · intro hzero
    obtain ⟨line,hline,hmem⟩ := List.mem_flatMap.mp hzero
    rcases List.mem_append.mp hmem with hmem | hmem
    · exact (hclean line hline).2 0 hmem |>.1 rfl
    · exact absurd (List.mem_singleton.mp hmem) (by decide)

/-- The items of lines: those of the full ones. -/
theorem exists_items {ls : List ScanLine} (h : ∀ l ∈ ls, plain l.flags = true)
    (hlen : ∀ l ∈ ls, l.flags.length ≤ 255) : ∃ found,
      List.Forall₂ (fun line item => getWifiScanItemFromLine line = .ok item)
        (ls.map ScanLine.text) found ∧
      List.Forall₂ (fun item l => (item.isSome = true ↔ l.Full) ∧ ∀ i ∈ item, Recovers i l)
        found ls := by
  induction ls with
  | nil => exact ⟨[],.nil,.nil⟩
  | cons l ls ih =>
    obtain ⟨found,hfound,hrecovers⟩ := ih (fun k hk => h k (List.mem_cons_of_mem _ hk))
      fun k hk => hlen k (List.mem_cons_of_mem _ hk)
    obtain ⟨item,hitem,hfull,hrec⟩ :=
      getWifiScanItem_scanLine (h l List.mem_cons_self) (hlen l List.mem_cons_self)
    exact ⟨item :: found,.cons hitem hfound,.cons ⟨hfull,hrec⟩ hrecovers⟩

theorem length_flatMap_toList_le {α : Type*} (found : List (Option α)) :
    (found.flatMap Option.toList).length ≤ found.length := by
  induction found with
  | nil => exact Nat.le_refl 0
  | cons item found ih =>
    rw [List.flatMap_cons,List.length_append,List.length_cons]
    cases item with
    | none => simpa using Nat.le_succ_of_le ih
    | some i =>
      simp only [Option.toList_some,List.length_singleton]
      omega

/-- One item is left for each line exactly when every line is full. -/
theorem forall₂_recovers_iff {found : List (Option WifiScanItem)} {ls : List ScanLine}
    (h : List.Forall₂ (fun item l => (item.isSome = true ↔ l.Full) ∧ ∀ i ∈ item, Recovers i l)
      found ls) :
    List.Forall₂ Recovers (found.flatMap Option.toList) ls ↔ ∀ l ∈ ls, l.Full := by
  induction h with
  | nil => simp
  | cons hitem hrest ih =>
    rename_i item l found ls
    obtain ⟨hfull,hrec⟩ := hitem
    rw [List.flatMap_cons,List.forall_mem_cons]
    cases item with
    | none =>
      refine iff_of_false (fun hall => ?_) fun hall => ?_
      · have hlen := hall.length_eq
        have hle := length_flatMap_toList_le found
        rw [hrest.length_eq] at hle
        rw [Option.toList_none,List.nil_append,List.length_cons] at hlen
        omega
      · exact absurd (hfull.mpr hall.1) (by simp)
    | some i =>
      rw [Option.toList_some,List.singleton_append,List.forall₂_cons,ih]
      exact and_congr_left fun _ => iff_of_true (hrec i rfl) (hfull.mp rfl)

end Lines

/-- The wrapper gives back what was scanned if every line is of a BSS with a flag and an SSID: tabs
with nothing between them count as one, and the line of any other BSS is dropped. -/
theorem decodes_iff {cfg : SupplicantConfig} {size : ℕ} {bsss : List Bss}
    (h : ∀ l ∈ scanLines cfg size bsss, l.flags.length ≤ 255) :
    Decodes cfg size bsss ↔ ∀ l ∈ scanLines cfg size bsss,
      l.bss.hasFlags cfg l.buflen = true ∧ l.bss.ssid ≠ [] := by
  obtain ⟨hreply,hlines⟩ | hreply := ctrlIfaceScanResults_cases cfg size bsss
  · rw [Decodes,hreply,hlines]
    refine iff_of_true ⟨[],rfl,.nil⟩ fun l hl => by cases hl
  · obtain ⟨found,hfound,hrecovers⟩ := exists_items scanLine_plain h
    have hitems : scanItems (ctrlIfaceScanResults cfg size bsss) =
        .ok (found.flatMap Option.toList) := by
      rw [scanItems,hreply,words_reply scanLine_plain]
      exact scanItemsFromLines_ok_iff.mpr ⟨none :: found,.cons getWifiScanItem_title hfound,rfl⟩
    have hfull : (∀ l ∈ scanLines cfg size bsss, l.Full) ↔ ∀ l ∈ scanLines cfg size bsss,
        l.bss.hasFlags cfg l.buflen = true ∧ l.bss.ssid ≠ [] :=
      forall₂_congr fun l hl => and_congr_left' (scanLine_flags hl)
    rw [Decodes,hitems,← hfull,← forall₂_recovers_iff hrecovers]
    constructor
    · rintro ⟨items,hok,hall⟩
      cases hok
      exact hall
    · exact fun hall => ⟨_,rfl,hall⟩

section Instances

/-- An open access point. -/
def openAp (ssid : Bytes) (h : ssid.length ≤ ssidMaxLen) : Bss where
  bssid := [2,0,0,0,0,1]
  freq := 2412
  level := -45
  caps := Bss.capEss
  ssid := ssid
  wpa := none
  rsn := none
  osen := none
  wps := none
  mesh := false
  p2p := false
  hs20 := false
  multiBand := false
  bssid_length := rfl
  freq_int := by decide
  level_int := by decide
  ssid_length := h

def noOptions : SupplicantConfig := fun _ => false

def hidden : List Bss := [openAp [] (by decide)]

def cafe : List Bss := [openAp (ascii "cafe") (by decide)]

/-- An access point that hides its SSID is scanned, and there is no item for it. -/
theorem not_decodes_hidden : (∀ l ∈ scanLines noOptions 4096 hidden, l.flags.length ≤ 255) ∧
    ¬ Decodes noOptions 4096 hidden := by
  have hitems : scanItems (ctrlIfaceScanResults noOptions 4096 hidden) = .ok [] := rfl
  have hlines : (scanLines noOptions 4096 hidden).length = 1 := rfl
  refine ⟨by decide,?_⟩
  rintro ⟨items,hok,hall⟩
  rw [hitems] at hok
  cases hok
  have hlen := hall.length_eq
  rw [hlines] at hlen
  cases hlen

theorem decodes_cafe : Decodes noOptions 4096 cafe := by
  have hlen : ∀ l ∈ scanLines noOptions 4096 cafe, l.flags.length ≤ 255 := by decide
  exact (decodes_iff hlen).mpr (by decide)

end Instances

end WpaCliWrapper
