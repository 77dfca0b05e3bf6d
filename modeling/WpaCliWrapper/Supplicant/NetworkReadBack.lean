import WpaCliWrapper.Supplicant.NetworkFields

/-! What each row of `ssid_fields` writes is what its parser reads: the text of a value gives the value
back, wherever the row had only its default before. -/
namespace WpaCliWrapper
open CText

section Texts

/-- A printable character other than a blank. -/
def isPlain (c : UInt8) : Bool := 33 ≤ c && c ≤ 126

theorem isPlain_digit {d : UInt8} (h : d < 16) : isPlain (hexDigit d) := by
  grind [isPlain,hexDigit]

theorem isPlain_isDigit {c : UInt8} (h : isDigit c) : isPlain c := by grind [isPlain,isDigit]

theorem not_blank_of_plain {c : UInt8} (h : isPlain c) : isBlank9 c = false ∧ c ≠ 32 := by
  grind [isPlain,isBlank9]

theorem isBlank9_word {w : Bytes} (hne : w ≠ []) (h : ∀ c ∈ w, isPlain c) : IsWord isBlank9 w :=
  ⟨hne,fun c hc => (not_blank_of_plain (h c hc)).1⟩

end Texts

section Strings

theorem parseString_plain {c : UInt8} {text : Bytes} (h34 : c ≠ 34) (h80 : c ≠ 80) :
    wpaConfigParseString (c :: text) = unhex (c :: text) := by
  unfold wpaConfigParseString
  split
  · rename_i heq
    exact absurd (List.cons.inj heq).1 h34
  · rename_i heq
    exact absurd (List.cons.inj heq).1 h80
  · rfl

theorem quotedValue_append (s : Bytes) : quotedValue (s ++ [34]) = some s := by
  have hlast : (s ++ [34]).getLast? = some 34 := by simp
  rw [quotedValue,if_pos hlast,List.dropLast_concat]

/-- A string is read back from its text, whichever of the two forms it has. -/
theorem parseString_write (s : Bytes) : wpaConfigParseString (wpaConfigWriteString s) = some s := by
  rw [wpaConfigWriteString]
  split
  · rename_i hhex
    have hread := unhex_byteDigits s
    cases s with
    | nil => cases hhex
    | cons a s =>
      have hdigit : hex2num (hexDigit (a/16)) = some (a/16) := hex2num_hexDigit (hex_digits a).1
      have h34 : hexDigit (a/16) ≠ 34 := fun heq => by rw [heq] at hdigit; cases hdigit
      have h80 : hexDigit (a/16) ≠ 80 := fun heq => by rw [heq] at hdigit; cases hdigit
      exact (parseString_plain h34 h80).trans hread
  · exact quotedValue_append s

theorem writeString_head (s : Bytes) : (wpaConfigWriteString s).head? ≠ some 78 := by
  rw [wpaConfigWriteString]
  split
  · rename_i hhex
    cases s with
    | nil => cases hhex
    | cons a s =>
      have hdigit : hex2num (hexDigit (a/16)) = some (a/16) := hex2num_hexDigit (hex_digits a).1
      change some (hexDigit (a/16)) ≠ some 78
      rintro heq
      rw [Option.some_inj.mp heq] at hdigit
      cases hdigit
  · exact fun heq => absurd (Option.some_inj.mp heq) (by decide)

theorem readBack_str {hasLen : Bool} {minLen maxLen : ℕ} {s : Bytes} (hmin : minLen ≤ s.length)
    (hmax : maxLen ≠ 0 → s.length ≤ maxLen) (hnul : hasLen = false → 0 ∉ s) :
    wpaConfigParseStrField hasLen minLen maxLen none (wpaConfigWriteString s) = (0,some s) := by
  have hne : wpaConfigWriteString s ≠ ascii "NULL" := fun heq => writeString_head s (heq ▸ rfl)
  rw [wpaConfigParseStrField,if_neg hne,parseString_write]
  simp only
  rw [if_neg fun h => absurd hmin (Nat.not_le.mpr h.2),
    if_neg fun h => absurd (hmax h.1) (Nat.not_le.mpr h.2),if_neg (Option.some_ne_none s).symm]
  cases hasLen with
  | true => rfl
  | false => rw [if_neg Bool.false_ne_true,cstr_eq_self (hnul rfl)]

end Strings

section Numbers

theorem readBack_int {minValue maxValue dst z : ℤ} (hz : -2^31 ≤ z ∧ z < 2^31)
    (hmin : minValue ≠ 0 → minValue ≤ z) (hmax : maxValue ≠ 0 → z ≤ maxValue) :
    ∃ r, wpaConfigParseInt minValue maxValue dst (decimal z) = (r,z) ∧ 0 ≤ r := by
  have hmod : z.bmod (2^32) = z := Int.bmod_eq_of_le (by omega) (by omega)
  rw [wpaConfigParseInt,strtolAuto_decimal hz]
  simp only [hmod]
  rw [if_neg (not_not.mpr rfl)]
  by_cases hdst : dst = z
  · exact ⟨1,by rw [if_pos hdst,hdst],Int.one_nonneg⟩
  · rw [if_neg hdst,if_neg fun h => absurd (hmin h.1) (Int.not_le.mpr h.2),
      if_neg fun h => absurd (hmax h.1) (Int.not_le.mpr h.2)]
    exact ⟨0,rfl,Int.le_refl 0⟩

end Numbers

section Addresses

theorem macStr_eq (addr : Bytes) : macStr addr = [58].intercalate (addr.map byteDigits) := rfl

theorem hwaddrParse_macStr {addr : Bytes} (h : addr.length = ethAlen) (rest : Bytes) :
    hwaddrParse ethAlen (macStr addr ++ rest) = some (addr,rest) := by
  have hne : addr ≠ [] := fun hnil => by rw [hnil] at h; cases h
  exact h ▸ hwaddrParse_byteDigits hne rest

theorem isPlain_macStr (addr : Bytes) : (macStr addr).all isPlain := by
  rw [macStr_eq]
  have hdigits : ∀ a, (byteDigits a).all isPlain := fun a => by
    have h1 := isPlain_digit (hex_digits a).1
    have h2 := isPlain_digit (hex_digits a).2.1
    rw [byteDigits,List.all_cons,List.all_cons,h1,h2]
    rfl
  induction addr with
  | nil => rfl
  | cons a rest ih =>
    cases rest with
    | nil => simpa using hdigits a
    | cons b rest =>
      rw [List.map_cons] at ih
      rw [List.map_cons,List.map_cons,List.intercalate_cons_cons,List.all_append,List.all_append,
        hdigits,ih]
      rfl

theorem macStr_ne_nil {addr : Bytes} (h : addr.length = ethAlen) : macStr addr ≠ [] := by
  intro hnil
  have hread := hwaddrParse_macStr h []
  rw [hnil] at hread
  cases hread

theorem readBack_bssid {addr : Bytes} (h : addr.length = ethAlen) (dst : Bytes × Bool) :
    wpaConfigParseBssid dst (macStr addr) = (0,addr,true) := by
  have hread := hwaddrParse_macStr h []
  rw [List.append_nil] at hread
  have hany : ¬ (macStr addr = [] ∨ macStr addr = ascii "\"\"" ∨ macStr addr = ascii "any") := by
    rintro (heq | heq | heq)
    all_goals
      rw [heq] at hread
      cases hread
  rw [wpaConfigParseBssid,if_neg hany,hwaddrAton,hread]
  rfl

/-- An address and its mask, six bytes each. -/
def IsMasked (a : Bytes × Bytes) : Prop := a.1.length = ethAlen ∧ a.2.length = ethAlen

theorem isPlain_maskTxt (a : Bytes × Bytes) : (hwaddrMaskTxt a).all isPlain := by
  rw [hwaddrMaskTxt]
  split
  · rw [List.all_append,List.all_cons,isPlain_macStr,isPlain_macStr]
    rfl
  · exact isPlain_macStr a.1

theorem maskTxt_ne_nil {a : Bytes × Bytes} (h : IsMasked a) : hwaddrMaskTxt a ≠ [] := by
  rw [hwaddrMaskTxt]
  split
  · exact List.append_ne_nil_of_left_ne_nil (macStr_ne_nil h.1) _
  · exact macStr_ne_nil h.1

theorem maskTxt_length {a : Bytes × Bytes} (h : IsMasked a) : (hwaddrMaskTxt a).length ≤ 35 := by
  have hlen : ∀ {addr : Bytes}, addr.length = ethAlen → (macStr addr).length+1 = 18 := by
    intro addr haddr
    have hne : addr ≠ [] := fun hnil => by rw [hnil] at haddr; cases haddr
    rw [macStr_length hne,haddr]
    rfl
  have h1 := hlen h.1
  have h2 := hlen h.2
  rw [hwaddrMaskTxt]
  split
  · rw [List.length_append,List.length_cons]
    omega
  · omega

theorem maskedAton_maskTxt {a : Bytes × Bytes} (h : IsMasked a) {rest : Bytes}
    (hrest : ∀ c ∈ rest.head?, c = 32) : hwaddrMaskedAton true (hwaddrMaskTxt a ++ rest) = some a := by
  rw [hwaddrMaskTxt]
  split
  · rw [List.append_assoc,List.cons_append,hwaddrMaskedAton,hwaddrParse_macStr h.1]
    change (do return (a.1,(← hwaddrParse ethAlen (macStr a.2 ++ rest)).1)) = some a
    rw [hwaddrParse_macStr h.2]
    rfl
  · rename_i hany
    have hall : ∀ c ∈ a.2, c = 255 := by
      intro c hc
      by_contra hne
      exact hany (List.any_eq_true.mpr ⟨c,hc,decide_eq_true hne⟩)
    have hmask : List.replicate ethAlen 255 = a.2 := by
      rw [List.eq_replicate_of_mem hall,h.2]
    rw [hwaddrMaskedAton,hwaddrParse_macStr h.1]
    cases rest with
    | nil => exact congrArg (fun m => some (a.1,m)) hmask
    | cons c rest =>
      rw [hrest c rfl]
      exact congrArg (fun m => some (a.1,m)) hmask

theorem dropWhile_word_spaced {w : Bytes} (hw : ∀ c ∈ w, c ≠ 32) (ws : List Bytes) :
    fromBlank (w ++ spaced 32 ws) = spaced 32 ws := by
  rw [fromBlank,List.dropWhile_append_of_pos fun c hc => decide_eq_true (hw c hc)]
  cases ws with
  | nil => rfl
  | cons v ws => exact List.dropWhile_cons_of_neg (by decide)

theorem skipBlanks_word {w : Bytes} (hne : w ≠ []) (hw : ∀ c ∈ w, c ≠ 32) (rest : Bytes) :
    skipBlanks (w ++ rest) = w ++ rest := by
  obtain ⟨c,w,rfl⟩ := List.exists_cons_of_ne_nil hne
  exact List.dropWhile_cons_of_neg (by simpa using hw c List.mem_cons_self)

theorem parseAddrs_step {a : Bytes × Bytes} (h : IsMasked a) (acc : List (Bytes × Bytes))
    {pos : Bytes} (hne : pos ≠ []) {ws : List Bytes}
    (hskip : skipBlanks pos = hwaddrMaskTxt a ++ spaced 32 ws) :
    parseAddrs true true acc pos = parseAddrs true true (a :: acc) (spaced 32 ws) := by
  have hblank : ∀ c ∈ hwaddrMaskTxt a, c ≠ 32 := fun c hc =>
    (not_blank_of_plain (List.all_eq_true.mp (isPlain_maskTxt a) c hc)).2
  have hhead : ∀ c ∈ (spaced 32 ws).head?, c = 32 := by
    cases ws with
    | nil => exact fun c hc => absurd hc (Option.not_mem_none c)
    | cons w ws => exact fun c hc => (Option.some_inj.mp hc).symm
  rw [parseAddrs,dif_neg hne]
  simp only [hskip,maskedAton_maskTxt h hhead,dropWhile_word_spaced hblank]

theorem parseAddrs_spaced {list : List (Bytes × Bytes)} (h : ∀ a ∈ list, IsMasked a)
    (acc : List (Bytes × Bytes)) :
    parseAddrs true true acc (spaced 32 (list.map hwaddrMaskTxt)) = some (list.reverse ++ acc) := by
  induction list generalizing acc with
  | nil => rw [List.map_nil,spaced_nil,parseAddrs,dif_pos rfl,List.reverse_nil,List.nil_append]
  | cons a list ih =>
    have ha := h a List.mem_cons_self
    have hblank : ∀ c ∈ hwaddrMaskTxt a, c ≠ 32 := fun c hc =>
      (not_blank_of_plain (List.all_eq_true.mp (isPlain_maskTxt a) c hc)).2
    have hskip : skipBlanks (32 :: (hwaddrMaskTxt a ++ spaced 32 (list.map hwaddrMaskTxt))) =
        hwaddrMaskTxt a ++ spaced 32 (list.map hwaddrMaskTxt) :=
      (List.dropWhile_cons_of_pos (by decide)).trans
        (skipBlanks_word (maskTxt_ne_nil ha) hblank _)
    rw [List.map_cons,spaced_cons,parseAddrs_step ha acc (List.cons_ne_nil _ _) hskip,
      ih fun b hb => h b (List.mem_cons_of_mem a hb),List.reverse_cons,List.append_assoc]
    rfl

theorem length_joined_le {ws : List Bytes} {k : ℕ} (h : ∀ w ∈ ws, w.length < k) :
    (joined ws).length ≤ k*ws.length-1 := by
  have hspaced : (spaced 32 ws).length ≤ k*ws.length := by
    induction ws with
    | nil => exact Nat.le_refl 0
    | cons w ws ih =>
      have hw := h w List.mem_cons_self
      have ih := ih fun v hv => h v (List.mem_cons_of_mem w hv)
      rw [spaced_cons,List.length_cons,List.length_append,List.length_cons,Nat.mul_succ]
      omega
  rw [joined,List.length_tail]
  omega

/-- A list of addresses always fits its buffer, and is read back. -/
theorem readBack_addrs {list : List (Bytes × Bytes)} (hne : list ≠ []) (h : ∀ a ∈ list, IsMasked a) :
    wpaConfigWriteAddrList list = some (joined (list.reverse.map hwaddrMaskTxt)) ∧
      ∀ dst, wpaConfigParseAddrList true true dst (joined (list.reverse.map hwaddrMaskTxt)) =
        (0,list) := by
  have hrev : ∀ a ∈ list.reverse, IsMasked a := fun a ha => h a (List.mem_reverse.mp ha)
  have hwords : ∀ w ∈ list.reverse.map hwaddrMaskTxt, w ≠ [] ∧ w.length < 36 := by
    intro w hw
    obtain ⟨a,ha,rfl⟩ := List.mem_map.mp hw
    exact ⟨maskTxt_ne_nil (hrev a ha),Nat.lt_succ_of_le (maskTxt_length (hrev a ha))⟩
  constructor
  · have hlen := length_joined_le fun w hw => (hwords w hw).2
    rw [List.length_map,List.length_reverse] at hlen
    have hpos := List.length_pos_iff.mpr hne
    rw [wpaConfigWriteAddrList,if_neg hne,
      writeWords_fits (fun w hw => (hwords w hw).1) (by omega)]
    rfl
  · intro dst
    have hread : parseAddrs true true [] (joined (list.reverse.map hwaddrMaskTxt)) = some list := by
      obtain ⟨a,rest,heq⟩ := List.exists_cons_of_ne_nil (List.reverse_ne_nil_iff.mpr hne)
      have ha := hrev a (heq ▸ List.mem_cons_self)
      have hblank : ∀ c ∈ hwaddrMaskTxt a, c ≠ 32 := fun c hc =>
        (not_blank_of_plain (List.all_eq_true.mp (isPlain_maskTxt a) c hc)).2
      have hskip := skipBlanks_word (maskTxt_ne_nil ha) hblank (spaced 32 (rest.map hwaddrMaskTxt))
      have hpos := List.append_ne_nil_of_left_ne_nil (maskTxt_ne_nil ha)
        (spaced 32 (rest.map hwaddrMaskTxt))
      rw [heq,List.map_cons]
      change parseAddrs true true [] (hwaddrMaskTxt a ++ spaced 32 (rest.map hwaddrMaskTxt)) = _
      rw [parseAddrs_step ha [] hpos hskip,
        parseAddrs_spaced fun b hb => hrev b (heq ▸ List.mem_cons_of_mem a hb)]
      rw [← List.reverse_reverse list,heq,List.reverse_cons]
    rw [wpaConfigParseAddrList,hread]
    rfl

end Addresses

section Keys

theorem beforeQuote_append (s : Bytes) : beforeQuote (s ++ [34]) = s := by
  have hmem : (34 : UInt8) ∈ s ++ [34] := List.mem_append_right s (List.mem_singleton_self 34)
  rw [beforeQuote,if_pos hmem,List.reverse_append]
  change ((34 :: s.reverse).dropWhile (· ≠ 34)).tail.reverse = s
  rw [List.dropWhile_cons_of_neg (by decide),List.tail_cons,List.reverse_reverse]

theorem hexDigit_ne_quote {d : UInt8} (h : d < 16) : hexDigit d ≠ 34 := by grind [hexDigit]

theorem writeHex_head {value : Bytes} {c : UInt8} (h : c ∈ (wpaConfigWriteStringHex value).head?) :
    c ≠ 34 :=
  fun heq => by
    obtain ⟨a,-,hc⟩ := List.mem_flatMap.mp (List.mem_of_mem_head? h)
    rcases List.mem_pair.mp hc with rfl | rfl
    · exact hexDigit_ne_quote (hex_digits a).1 heq
    · exact hexDigit_ne_quote (hex_digits a).2.1 heq

theorem hexStored_of_hexstr2bin {len : ℕ} {hex data : Bytes} (h : hexstr2bin len hex = some data) :
    hexStored len hex = data := by
  induction len generalizing hex data with
  | zero => exact Option.some_inj.mp h
  | succ len ih =>
    rw [hexstr2bin] at h
    obtain ⟨a,ha,h⟩ := Option.bind_eq_some_iff.mp h
    obtain ⟨rest,hrest,h⟩ := Option.bind_eq_some_iff.mp h
    rw [hexStored,ha,Option.elim_some,ih hrest]
    exact Option.some_inj.mp h

/-- A passphrase that the parser accepts. -/
def IsPassphrase (phrase : Bytes) : Prop :=
  8 ≤ phrase.length ∧ phrase.length ≤ 63 ∧ hasCtrlChar phrase = false

theorem readBack_passphrase {phrase : Bytes} (h : IsPassphrase phrase) {dst : PskMembers}
    (hdst : dst.passphrase = none) :
    wpaConfigParsePsk dst (wpaConfigWriteStringAscii phrase) = (0,⟨some phrase,dst.psk,false⟩) := by
  obtain ⟨hmin,hmax,hctrl⟩ := h
  rw [wpaConfigWriteStringAscii,wpaConfigParsePsk]
  simp only [beforeQuote_append]
  rw [if_neg (by omega),if_neg (hctrl ▸ Bool.false_ne_true),hdst,
    if_neg (Option.some_ne_none phrase).symm]

theorem readBack_psk {psk : Bytes} (h : psk.length = pmkLen) {dst : PskMembers}
    (hdst : dst.psk.length = pmkLen) :
    wpaConfigParsePsk dst (wpaConfigWriteStringHex psk) = (0,⟨none,psk,true⟩) := by
  have hread : hexstr2bin pmkLen (wpaConfigWriteStringHex psk) = some psk := by
    have hread := hexstr2bin_byteDigits psk []
    rwa [List.append_nil,h] at hread
  have hlen : (wpaConfigWriteStringHex psk).length = 2*pmkLen := by
    rw [wpaConfigWriteStringHex,length_flatMap_byteDigits,h]
  have hover : overwrite dst.psk psk = psk := by
    rw [overwrite,List.drop_eq_nil_of_le (by omega),List.append_nil]
  have hhead : ∀ c ∈ (wpaConfigWriteStringHex psk).head?, c ≠ 34 := fun c hc => writeHex_head hc
  generalize wpaConfigWriteStringHex psk = text at *
  unfold wpaConfigParsePsk
  split
  · exact absurd rfl (hhead 34 rfl)
  · rw [hexStored_of_hexstr2bin hread,hover,hread,if_neg]
    rintro (h | h)
    · cases h
    · exact h hlen

theorem readBack_hash {hash : Bytes} (h : hash.length = 16) :
    wpaConfigParsePassword (none,false) (ascii "hash:" ++ wpaConfigWriteStringHex hash) =
      (0,some hash,true) := by
  have hread : hexstr2bin 16 (wpaConfigWriteStringHex hash) = some hash := by
    have hread := hexstr2bin_byteDigits hash []
    rwa [List.append_nil,h] at hread
  have hlen : (wpaConfigWriteStringHex hash).length = 2*16 := by
    rw [wpaConfigWriteStringHex,length_flatMap_byteDigits,h]
  have hnull : ascii "hash:" ++ wpaConfigWriteStringHex hash ≠ ascii "NULL" := fun heq =>
    absurd (congrArg List.head? heq) (by simp [ascii])
  have hpre : (ascii "hash:").isPrefixOf (ascii "hash:" ++ wpaConfigWriteStringHex hash) :=
    List.isPrefixOf_iff_prefix.mpr (List.prefix_append _ _)
  have hdrop : (ascii "hash:" ++ wpaConfigWriteStringHex hash).drop 5 =
      wpaConfigWriteStringHex hash := rfl
  rw [wpaConfigParsePassword,if_neg hnull,if_pos hpre]
  simp only [hdrop,hlen,hread]
  rfl

theorem readBack_password (password : Bytes) :
    wpaConfigParsePassword (none,false) (wpaConfigWriteString password) =
      (0,some password,false) := by
  have hne : wpaConfigWriteString password ≠ ascii "NULL" := fun heq =>
    writeString_head password (heq ▸ rfl)
  have hpre : ¬ (ascii "hash:").isPrefixOf (wpaConfigWriteString password) := by
    rw [List.isPrefixOf_iff_prefix]
    rintro ⟨rest,hrest⟩
    have hread := parseString_write password
    have hhash : wpaConfigParseString (ascii "hash:" ++ rest) = unhex (ascii "hash:" ++ rest) :=
      parseString_plain (by decide) (by decide)
    rw [← hrest,hhash] at hread
    exact absurd rfl (unhex_digits hread 104 List.mem_cons_self)
  rw [wpaConfigParsePassword,if_neg hne,if_neg hpre,parseString_write]

theorem readBack_wepKey {key : Bytes} (h : key.length ≤ maxWepKeyLen) (dst : Bytes × ℕ) :
    wpaConfigParseWepKey dst (wpaConfigWriteString key) = (0,overwrite dst.1 key,key.length) := by
  rw [wpaConfigParseWepKey,parseString_write]
  exact if_neg (Nat.not_lt.mpr h)

end Keys

section Flags
variable {names table : List (Bytes × ℕ)} {v size : ℕ}

/-- Every bit of a number has a name. -/
def Named (names : List (Bytes × ℕ)) (v : ℕ) : Prop := ∀ k, v.testBit k → ∃ r ∈ names, r.2 = k

/-- The names of a table are words that are read as their bits, and all of them fit the buffer. -/
def Spells (names table : List (Bytes × ℕ)) (size : ℕ) : Prop :=
  (∀ r ∈ names, flagBit table r.1 = some r.2 ∧ r.1 ≠ [] ∧ ∀ c ∈ r.1, isPlain c) ∧
    (joined (names.map Prod.fst)).length < size

theorem flagNames_plain (h : Spells names table size) (v : ℕ) :
    ∀ w ∈ flagNames names v, w ≠ [] ∧ ∀ c ∈ w, isPlain c := by
  intro w hw
  obtain ⟨r,hr,rfl⟩ := List.mem_map.mp (flagNames_subset hw)
  exact (h.1 r hr).2

theorem writeWords_flagNames (h : Spells names table size) (v : ℕ) :
    writeWords size [] (flagNames names v) = (joined (flagNames names v),true) := by
  have hsub : (flagNames names v).Sublist (names.map Prod.fst) := List.filter_sublist.map _
  have hlen := length_spaced_sublist (32 : UInt8) hsub
  have hfits := h.2
  refine writeWords_fits (fun w hw => (flagNames_plain h v w hw).1) ?_
  rw [joined,List.length_tail] at hfits ⊢
  omega

theorem readFlags_joined (h : Spells names table size) (hv : Named names v) :
    readFlags table (words isBlank9 (joined (flagNames names v))) = (v,0) := by
  have hwords : ∀ w ∈ flagNames names v, IsWord isBlank9 w := fun w hw =>
    isBlank9_word (flagNames_plain h v w hw).1 (flagNames_plain h v w hw).2
  rw [words_joined rfl hwords]
  exact readFlags_flagNames (fun r hr => (h.1 r hr).1) hv

/-- Flags are written as their names, and those are read back. -/
theorem readBack_flags (h : Spells names table size) (hv : Named names v) (h0 : v ≠ 0) :
    writeFlags size names v = some (joined (flagNames names v)) ∧
      ∀ dst, ∃ r, parseFlags table dst (joined (flagNames names v)) = (r,v) ∧ 0 ≤ r := by
  constructor
  · rw [writeFlags,if_neg fun hnil => h0 ((flagNames_eq_nil_iff hv).mp hnil),
      writeWords_flagNames h v]
  · intro dst
    rw [parseFlags,readFlags_joined h hv]
    simp only [if_neg h0]
    by_cases hdst : dst = v
    · exact ⟨1,by rw [if_pos ⟨trivial,hdst⟩,hdst],Int.one_nonneg⟩
    · exact ⟨0,by rw [if_neg fun h => hdst h.2]; rfl,Int.le_refl 0⟩

/-- The names of all flags, and of the EAP methods of the build, stand for them. -/
theorem names_read : (Spells protoFlags (protoFlags ++ [(ascii "WPA2",1)]) 20 ∧
    Spells keyMgmtFlags keyMgmtFlags 100 ∧ Spells authAlgFlags authAlgFlags 30 ∧
    Spells writtenCiphers cipherFlags 50) ∧
    ∀ r ∈ eapMethodNames, eapGetName r.2 = some r.1 ∧ eapPeerGetType r.1 = r.2 ∧
      r.2 ≠ eapTypeNone ∧ r.1 ≠ [] ∧ ∀ c ∈ r.1, isPlain c := by
  unfold Spells
  decide +kernel

theorem spells_cipher : Spells writtenCiphers cipherFlags 50 := names_read.1.2.2.2

theorem readBack_cipher (hv : Named writtenCiphers v) (h0 : v ≠ 0) :
    wpaConfigWriteCipher v = some (joined (flagNames writtenCiphers v)) ∧
      wpaConfigParseCipher (joined (flagNames writtenCiphers v)) = some v := by
  constructor
  · rw [wpaConfigWriteCipher,writeWords_flagNames spells_cipher v]
    rfl
  · rw [wpaConfigParseCipher,readFlags_joined spells_cipher hv]
    exact if_neg fun h => h.elim (fun h => h rfl) h0

theorem readBack_pairwise (hv : Named writtenCiphers v) (h0 : v ≠ 0)
    (hallowed : v.ldiff wpaAllowedPairwiseCiphers = 0) (dst : ℕ) :
    ∃ r, wpaConfigParsePairwise dst (joined (flagNames writtenCiphers v)) = (r,v) ∧ 0 ≤ r := by
  rw [wpaConfigParsePairwise,(readBack_cipher hv h0).2]
  simp only [if_neg (not_not.mpr hallowed)]
  by_cases hdst : dst = v
  · exact ⟨1,by rw [if_pos hdst,hdst],Int.one_nonneg⟩
  · exact ⟨0,if_neg hdst,Int.le_refl 0⟩

theorem readBack_group (hv : Named writtenCiphers v) (h0 : v ≠ 0)
    (hallowed : v.ldiff wpaAllowedGroupCiphers = 0) (dst : ℕ) :
    ∃ r, wpaConfigParseGroup dst (joined (flagNames writtenCiphers v)) = (r,v) ∧ 0 ≤ r := by
  have hwep : v.ldiff wepCiphers = v := by
    refine Nat.eq_of_testBit_eq fun k => ?_
    rw [Nat.testBit_ldiff]
    cases hk : v.testBit k with
    | false => rfl
    | true =>
      obtain ⟨r,hr,rfl⟩ := hv k hk
      have hall : ∀ r ∈ writtenCiphers, wepCiphers.testBit r.2 = false := by decide
      rw [hall r hr]
      rfl
  rw [wpaConfigParseGroup,(readBack_cipher hv h0).2]
  simp only [hwep,if_neg (not_not.mpr hallowed)]
  by_cases hdst : dst = v
  · exact ⟨1,by rw [if_pos hdst,hdst],Int.one_nonneg⟩
  · exact ⟨0,if_neg hdst,Int.le_refl 0⟩

end Flags

section Lists

theorem atoi_unsignedText {f : ℤ} (hf : -2^31 ≤ f ∧ f < 2^31) {rest : Bytes}
    (hrest : ∀ c ∈ rest.head?, c = 32) : atoi (unsignedText f ++ rest) = f := by
  have hend : ∀ c ∈ rest.head?, isDigit c = false := by
    intro c hc
    rw [hrest c hc]
    rfl
  have htake := takeWhile_decimalNat (f % 2^32).toNat hend
  have hvalue : (clampLong ((f % 2^32).toNat : ℤ)).bmod (2^32) = f := by
    have hclamp : clampLong ((f % 2^32).toNat : ℤ) = f % 2^32 := by
      unfold clampLong
      omega
    rw [hclamp,Int.bmod_def]
    omega
  rw [unsignedText]
  obtain ⟨c,s,hs,hc⟩ := decimalNat_cons (f % 2^32).toNat
  have hdrop : (decimalNat (f % 2^32).toNat ++ rest).dropWhile isSpace =
      decimalNat (f % 2^32).toNat ++ rest := by
    rw [hs,List.cons_append,List.dropWhile_cons_of_neg (by simp [isSpace_of_isDigit hc])]
  rw [atoi,hdrop]
  split
  · rename_i heq
    rw [hs] at heq
    exact absurd ((List.cons.inj heq).1 ▸ hc) (by decide)
  · rename_i heq
    rw [hs] at heq
    exact absurd ((List.cons.inj heq).1 ▸ hc) (by decide)
  · rw [htake,digitsValue_decimalNat]
    exact hvalue

/-- A frequency as the parser stores it: an `int` other than zero. -/
def IsFreq (f : ℤ) : Prop := f ≠ 0 ∧ -2^31 ≤ f ∧ f < 2^31

theorem unsignedText_plain (f : ℤ) : unsignedText f ≠ [] ∧ ∀ c ∈ unsignedText f, isPlain c :=
  ⟨decimalNat_ne_nil _,fun _ hc => isPlain_isDigit (decimalNat_isDigit hc)⟩

theorem parseFreqs_step {f : ℤ} (h : IsFreq f) {pos : Bytes} {ws : List Bytes}
    (hskip : skipBlanks pos = unsignedText f ++ spaced 32 ws) :
    wpaConfigParseIntArray pos =
      if spaced 32 ws = [] then [f] else f :: wpaConfigParseIntArray (spaced 32 ws) := by
  obtain ⟨hne,hplain⟩ := unsignedText_plain f
  have hhead : ∀ c ∈ (spaced 32 ws).head?, c = 32 := by
    cases ws with
    | nil => exact fun c hc => absurd hc (Option.not_mem_none c)
    | cons w ws => exact fun c hc => (Option.some_inj.mp hc).symm
  have htail : fromBlank (unsignedText f ++ spaced 32 ws).tail = spaced 32 ws := by
    rw [List.tail_append_of_ne_nil hne]
    exact dropWhile_word_spaced
      (fun c hc => (not_blank_of_plain (hplain c (List.mem_of_mem_tail hc))).2) ws
  rw [wpaConfigParseIntArray]
  simp only [hskip,atoi_unsignedText h.2 hhead,if_neg h.1,htail,dite_eq_ite]

theorem parseFreqs_spaced {freqs : List ℤ} (h : ∀ f ∈ freqs, IsFreq f) (hne : freqs ≠ []) :
    wpaConfigParseIntArray (spaced 32 (freqs.map unsignedText)) = freqs := by
  induction freqs with
  | nil => exact absurd rfl hne
  | cons f freqs ih =>
    obtain ⟨htext,hplain⟩ := unsignedText_plain f
    have hskip : skipBlanks (32 :: (unsignedText f ++ spaced 32 (freqs.map unsignedText))) =
        unsignedText f ++ spaced 32 (freqs.map unsignedText) :=
      (List.dropWhile_cons_of_pos (by decide)).trans
        (skipBlanks_word htext (fun c hc => (not_blank_of_plain (hplain c hc)).2) _)
    rw [List.map_cons,spaced_cons,parseFreqs_step (h f List.mem_cons_self) hskip]
    cases freqs with
    | nil => rfl
    | cons g freqs =>
      rw [ih (fun e he => h e (List.mem_cons_of_mem f he)) (List.cons_ne_nil g freqs)]
      exact if_neg (List.cons_ne_nil _ _)

/-- Frequencies whose text fits the buffer are read back. -/
theorem readBack_freqs {freqs : List ℤ} (h : ∀ f ∈ freqs, IsFreq f) (hne : freqs ≠ [])
    (hfits : (joined (freqs.map unsignedText)).length ≤ 10*freqs.length) :
    wpaConfigWriteFreqs (some freqs) = some (joined (freqs.map unsignedText)) ∧
      parseFreqs (joined (freqs.map unsignedText)) = (0,some freqs) := by
  have hwords : ∀ w ∈ freqs.map unsignedText, w ≠ [] := by
    intro w hw
    obtain ⟨f,-,rfl⟩ := List.mem_map.mp hw
    exact (unsignedText_plain f).1
  constructor
  · rw [wpaConfigWriteFreqs,Option.map_some,writeWords_fits hwords (Nat.lt_succ_of_le hfits)]
  · have hread : wpaConfigParseIntArray (joined (freqs.map unsignedText)) = freqs := by
      obtain ⟨f,rest,rfl⟩ := List.exists_cons_of_ne_nil hne
      obtain ⟨htext,hplain⟩ := unsignedText_plain f
      have hskip := skipBlanks_word htext
        (fun c hc => (not_blank_of_plain (hplain c hc)).2) (spaced 32 (rest.map unsignedText))
      have hfirst := parseFreqs_step (h f List.mem_cons_self) hskip
      rw [List.map_cons]
      change wpaConfigParseIntArray (unsignedText f ++ spaced 32 (rest.map unsignedText)) = _
      rw [hfirst]
      cases rest with
      | nil => rfl
      | cons g rest =>
        rw [parseFreqs_spaced (fun e he => h e (List.mem_cons_of_mem f he)) (List.cons_ne_nil g rest)]
        exact if_neg (List.cons_ne_nil _ _)
    rw [parseFreqs,hread]
    obtain ⟨f,rest,rfl⟩ := List.exists_cons_of_ne_nil hne
    rfl

/-- Methods of the build are written as names that stand for them, and those are read back. -/
theorem readBack_eap {methods : List ℕ} (h : ∀ m ∈ methods, m ∈ eapMethodNames.map Prod.snd)
    (hfits : (joined (methods.filterMap eapGetName)).length < 100) :
    wpaConfigWriteEap (some methods) = some (joined (methods.filterMap eapGetName)) ∧
      wpaConfigParseEap none (joined (methods.filterMap eapGetName)) = (0,some methods) ∧
      (∀ w ∈ methods.filterMap eapGetName, w ≠ [] ∧ ∀ c ∈ w, isPlain c) ∧
      (methods.filterMap eapGetName).length = methods.length := by
  have hrow : ∀ m ∈ methods, ∃ name, eapGetName m = some name ∧ eapPeerGetType name = m ∧
      m ≠ eapTypeNone ∧ name ≠ [] ∧ ∀ c ∈ name, isPlain c := by
    intro m hm
    obtain ⟨r,hr,rfl⟩ := List.mem_map.mp (h m hm)
    exact ⟨r.1,names_read.2 r hr⟩
  have hplain : ∀ w ∈ methods.filterMap eapGetName, w ≠ [] ∧ ∀ c ∈ w, isPlain c := by
    intro w hw
    obtain ⟨m,hm,hname⟩ := List.mem_filterMap.mp hw
    obtain ⟨name,hname',-,-,hw⟩ := hrow m hm
    exact Option.some_inj.mp (hname'.symm.trans hname) ▸ hw
  have hback : (methods.filterMap eapGetName).map eapPeerGetType = methods := by
    clear hfits hplain h
    induction methods with
    | nil => rfl
    | cons m methods ih =>
      obtain ⟨name,hname,htype,-⟩ := hrow m List.mem_cons_self
      rw [List.filterMap_cons_some hname,List.map_cons,htype,
        ih fun k hk => hrow k (List.mem_cons_of_mem m hk)]
  have hnone : eapTypeNone ∉ methods := fun hmem => by
    obtain ⟨-,-,-,hne,-⟩ := hrow _ hmem
    exact hne rfl
  refine ⟨?_,?_,hplain,?_⟩
  · rw [wpaConfigWriteEap,Option.map_some,writeWords_fits (fun w hw => (hplain w hw).1) hfits]
  · have hwords : ∀ w ∈ methods.filterMap eapGetName, IsWord isBlank9 w := fun w hw =>
      isBlank9_word (hplain w hw).1 (hplain w hw).2
    have htake : methods.takeWhile (· ≠ eapTypeNone) = methods :=
      List.takeWhile_eq_self_iff.mpr fun m hm => decide_eq_true fun heq => hnone (heq ▸ hm)
    rw [wpaConfigParseEap]
    simp only [words_joined (p := isBlank9) rfl hwords,hback,htake,if_neg hnone]
  · exact (List.length_map _).symm.trans (congrArg List.length hback)

end Lists

end WpaCliWrapper
