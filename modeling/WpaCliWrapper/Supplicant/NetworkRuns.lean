import WpaCliWrapper.Supplicant.NetworkReadBack
import WpaCliWrapper.Supplicant.NetworkRows

/-! What holds of a network after any requests, accepted or refused: every row keeps values that its
writer has a text for. -/
namespace WpaCliWrapper
open CText Exchange

section Sound
variable {n m : NetworkBlock}

def FuncField.Sound (f : FuncField) (n : NetworkBlock) : Prop :=
  match f with
  | .bssid => n.bssid.1.length = ethAlen
  | .bssidBlacklist => ∀ a ∈ n.bssidBlacklist, IsMasked a
  | .bssidWhitelist => ∀ a ∈ n.bssidWhitelist, IsMasked a
  | .psk => (∀ phrase ∈ n.psk.passphrase, IsPassphrase phrase) ∧ n.psk.psk.length = pmkLen
  | .proto => Named protoFlags n.proto
  | .keyMgmt => Named keyMgmtFlags n.keyMgmt
  | .pairwise => n.pairwiseCipher ≠ 0 ∧ n.pairwiseCipher.ldiff wpaAllowedPairwiseCiphers = 0
  | .group => n.groupCipher.ldiff wpaAllowedGroupCiphers = 0
  | .authAlg => Named authAlgFlags n.authAlg
  | .scanFreq => ∀ freqs ∈ n.scanFreq, freqs ≠ [] ∧ ∀ f ∈ freqs, IsFreq f
  | .freqList => ∀ freqs ∈ n.freqList, freqs ≠ [] ∧ ∀ f ∈ freqs, IsFreq f
  | .eap => ∀ methods ∈ n.eapMethods, ∀ t ∈ methods, t ∈ eapMethodNames.map Prod.snd
  | .password => ∀ password, n.password = (some password,true) → password.length = 16
  | .wepKey idx => (n.wepKey idx).1.length = maxWepKeyLen

def ParseData.Sound (d : ParseData) (n : NetworkBlock) : Prop :=
  match d.kind with
  | .str hasLen _ maxLen => ∀ s ∈ n.strs d.name,
      (maxLen ≠ 0 → s.length ≤ maxLen) ∧ (hasLen = false → 0 ∉ s)
  | .int _ maxValue => -2^31 ≤ n.ints d.name ∧ n.ints d.name < 2^31 ∧
      (maxValue ≠ 0 → n.ints d.name ≤ maxValue)
  | .func f => f.Sound n

def NetworkBlock.Sound (n : NetworkBlock) : Prop := ∀ d ∈ ssidFields, d.Sound n

theorem ParseData.Sound.of_same {d : ParseData} (h : d.Sound n) (hsame : d.Same m n) : d.Sound m := by
  obtain ⟨name,kind⟩ := d
  cases kind with
  | str hasLen minLen maxLen =>
    intro s hs
    exact h s (hsame ▸ hs)
  | int minValue maxValue =>
    change -2^31 ≤ m.ints name ∧ m.ints name < 2^31 ∧ (maxValue ≠ 0 → m.ints name ≤ maxValue)
    rw [show m.ints name = n.ints name from hsame]
    exact h
  | func f =>
    cases f
    all_goals
      simp only [ParseData.Sound,FuncField.Sound,ParseData.Same,FuncField.Same] at h hsame ⊢
      rw [hsame]
      exact h

end Sound

section Parsers

theorem sound_str {hasLen : Bool} {minLen maxLen : ℕ} {dst : Option Bytes} (value : Bytes)
    (h : ∀ s ∈ dst, (maxLen ≠ 0 → s.length ≤ maxLen) ∧ (hasLen = false → 0 ∉ s)) :
    ∀ s ∈ (wpaConfigParseStrField hasLen minLen maxLen dst value).2,
      (maxLen ≠ 0 → s.length ≤ maxLen) ∧ (hasLen = false → 0 ∉ s) := by
  intro s hs
  unfold wpaConfigParseStrField at hs
  split at hs
  · cases hs
  split at hs
  · exact h s hs
  split at hs
  · exact h s hs
  split at hs
  · exact h s hs
  rename_i tmp _ _ hmax
  split at hs
  · exact h s hs
  · have hlen : maxLen ≠ 0 → tmp.length ≤ maxLen := fun h0 =>
      Nat.le_of_not_lt fun hlt => hmax ⟨h0,hlt⟩
    rw [← Option.some_inj.mp hs]
    cases hasLen with
    | true => exact ⟨hlen,fun heq => Bool.noConfusion heq⟩
    | false =>
      have hcstr : (cstr tmp).length ≤ tmp.length := (List.takeWhile_prefix _).length_le
      exact ⟨fun h0 => hcstr.trans (hlen h0),fun _ => cstr_noNul tmp⟩

theorem sound_int {minValue maxValue dst : ℤ} (hmin : minValue = 0) (hmax : 0 ≤ maxValue)
    (hmax' : maxValue < 2^31) (value : Bytes)
    (h : -2^31 ≤ dst ∧ dst < 2^31 ∧ (maxValue ≠ 0 → dst ≤ maxValue)) :
    -2^31 ≤ (wpaConfigParseInt minValue maxValue dst value).2 ∧
      (wpaConfigParseInt minValue maxValue dst value).2 < 2^31 ∧
      (maxValue ≠ 0 → (wpaConfigParseInt minValue maxValue dst value).2 ≤ maxValue) := by
  have hlow : -2^31 ≤ (strtolAuto value).1.bmod (2^32) := Int.le_bmod (by norm_num)
  have hhigh : (strtolAuto value).1.bmod (2^32) < 2^31 := Int.bmod_lt (by norm_num)
  unfold wpaConfigParseInt
  simp only
  generalize (strtolAuto value).1.bmod (2^32) = z at hlow hhigh ⊢
  split
  · exact h
  split
  · exact h
  split
  · rename_i hneg
    exact absurd hmin hneg.1
  split
  · exact ⟨by omega,hmax',fun _ => Int.le_refl _⟩
  · rename_i hle
    exact ⟨by omega,by omega,fun h0 => Int.le_of_not_gt fun hlt => hle ⟨h0,hlt⟩⟩

theorem hwaddrParse_length {len : ℕ} {txt addr rest : Bytes}
    (h : hwaddrParse len txt = some (addr,rest)) : addr.length = len := by
  induction len, txt using hwaddrParse.induct generalizing addr rest with
  | case1 txt =>
    cases h
    rfl
  | case2 txt =>
    obtain ⟨a,-,h⟩ := Option.bind_eq_some_iff.mp h
    cases h
    rfl
  | case3 len txt ih =>
    rw [hwaddrParse] at h
    obtain ⟨a,-,h⟩ := Option.bind_eq_some_iff.mp h
    split at h
    · obtain ⟨r,hr,h⟩ := Option.bind_eq_some_iff.mp h
      cases h
      rw [List.length_cons,ih _ hr]
    · cases h

theorem hwaddrStored_length (len : ℕ) (txt : Bytes) : (hwaddrStored len txt).length ≤ len := by
  induction len generalizing txt with
  | zero => exact Nat.le_refl 0
  | succ len ih =>
    rw [hwaddrStored]
    cases hex2byte txt with
    | none => exact Nat.zero_le _
    | some a =>
      rw [Option.elim_some,List.length_cons]
      split
      · exact Nat.succ_le_succ (ih _)
      · exact Nat.succ_le_succ (Nat.zero_le len)

theorem sound_bssid {dst : Bytes × Bool} (h : dst.1.length = ethAlen) (value : Bytes) :
    (wpaConfigParseBssid dst value).2.1.length = ethAlen := by
  unfold wpaConfigParseBssid
  split
  · exact h
  split
  · rw [overwrite_length (h ▸ hwaddrStored_length ethAlen value),h]
  · rename_i addr haddr
    obtain ⟨r,hr,rfl⟩ := Option.map_eq_some_iff.mp haddr
    exact hwaddrParse_length hr

theorem maskedAton_isMasked {masked : Bool} {txt : Bytes} {a : Bytes × Bytes}
    (h : hwaddrMaskedAton masked txt = some a) : IsMasked a := by
  obtain ⟨⟨addr,rest⟩,hr,h⟩ := Option.bind_eq_some_iff.mp h
  have hlen := hwaddrParse_length hr
  cases rest with
  | nil =>
    cases h
    exact ⟨hlen,List.length_replicate⟩
  | cons c rest =>
  change (if isSpace c then some (addr,List.replicate ethAlen 255)
    else if masked ∧ c = 47 then do return (addr,(← hwaddrParse ethAlen rest).1)
    else none) = some a at h
  split at h
  · cases h
    exact ⟨hlen,List.length_replicate⟩
  split at h
  · obtain ⟨q,hq,h⟩ := Option.bind_eq_some_iff.mp h
    cases h
    exact ⟨hlen,hwaddrParse_length hq⟩
  · cases h

theorem parseAddrs_isMasked {abortOnError masked : Bool} {acc list : List (Bytes × Bytes)}
    {pos : Bytes} (hacc : ∀ a ∈ acc, IsMasked a)
    (h : parseAddrs abortOnError masked acc pos = some list) : ∀ a ∈ list, IsMasked a := by
  induction acc, pos using parseAddrs.induct abortOnError masked with
  | case1 acc =>
    rw [parseAddrs,dif_pos rfl] at h
    exact Option.some_inj.mp h ▸ hacc
  | case2 acc pos hne _ hnone hstop =>
    rw [parseAddrs,dif_neg hne] at h
    simp only [hnone,if_pos hstop] at h
    cases h
  | case3 acc pos hne _ hnone hgo ih =>
    rw [parseAddrs,dif_neg hne] at h
    simp only [hnone,if_neg hgo] at h
    exact ih hacc h
  | case4 acc pos hne _ a ha ih =>
    rw [parseAddrs,dif_neg hne] at h
    simp only [ha] at h
    refine ih (fun b hb => ?_) h
    rcases List.mem_cons.mp hb with rfl | hb
    · exact maskedAton_isMasked ha
    · exact hacc b hb

theorem sound_addrs {abortOnError masked : Bool} {list : List (Bytes × Bytes)}
    (h : ∀ a ∈ list, IsMasked a) (value : Bytes) :
    ∀ a ∈ (wpaConfigParseAddrList abortOnError masked list value).2, IsMasked a := by
  rw [wpaConfigParseAddrList]
  cases hparse : parseAddrs abortOnError masked [] value with
  | none => exact h
  | some l => exact parseAddrs_isMasked (fun a ha => absurd ha List.not_mem_nil) hparse

theorem hexStored_length (len : ℕ) (hex : Bytes) : (hexStored len hex).length ≤ len := by
  induction len generalizing hex with
  | zero => exact Nat.le_refl 0
  | succ len ih =>
    rw [hexStored]
    cases hex2byte hex with
    | none => exact Nat.zero_le _
    | some a => exact Nat.succ_le_succ (ih (hex.drop 2))

theorem sound_psk {dst : PskMembers} (value : Bytes)
    (h : (∀ phrase ∈ dst.passphrase, IsPassphrase phrase) ∧ dst.psk.length = pmkLen) :
    (∀ phrase ∈ (wpaConfigParsePsk dst value).2.passphrase, IsPassphrase phrase) ∧
      (wpaConfigParsePsk dst value).2.psk.length = pmkLen := by
  have hover : ∀ hex, (overwrite dst.psk (hexStored pmkLen hex)).length = pmkLen := fun hex => by
    rw [overwrite_length (h.2 ▸ hexStored_length pmkLen hex),h.2]
  unfold wpaConfigParsePsk
  split
  · simp only
    split
    · exact h
    split
    · exact h
    split
    · exact h
    · rename_i hlen hctrl _
      refine ⟨fun phrase hp => ?_,h.2⟩
      rw [← Option.some_inj.mp hp]
      exact ⟨by omega,by omega,Bool.eq_false_iff.mpr hctrl⟩
  · simp only
    split
    · exact ⟨h.1,hover _⟩
    · exact ⟨fun phrase hp => absurd hp (Option.not_mem_none phrase),hover _⟩

theorem sound_password {dst : PasswordMembers} (value : Bytes)
    (h : ∀ password, dst = (some password,true) → password.length = 16) (password : Bytes)
    (hp : (wpaConfigParsePassword dst value).2 = (some password,true)) : password.length = 16 := by
  unfold wpaConfigParsePassword at hp
  split at hp
  · cases hp
  split at hp
  · simp only at hp
    split at hp
    · exact h password hp
    split at hp
    · exact h password hp
    · rename_i hash hhash
      split at hp
      · exact h password hp
      · cases hp
        exact hexstr2bin_length hhash
  · split at hp
    · exact h password hp
    · cases hp

theorem sound_wepKey {dst : Bytes × ℕ} (h : dst.1.length = maxWepKeyLen) (value : Bytes) :
    (wpaConfigParseWepKey dst value).2.1.length = maxWepKeyLen := by
  unfold wpaConfigParseWepKey
  split
  · exact h
  split
  · exact h
  · rename_i hle
    rw [overwrite_length (h ▸ Nat.le_of_not_lt hle),h]

theorem sound_flags {table : List (Bytes × ℕ)} {dst : ℕ} (h : Named table dst) (value : Bytes) :
    Named table (parseFlags table dst value).2 := by
  unfold parseFlags
  simp only
  generalize (if (readFlags table (words isBlank9 value)).1 = 0 then
    (readFlags table (words isBlank9 value)).2+1
    else (readFlags table (words isBlank9 value)).2) = errors
  split
  · exact h
  · exact fun k hk => row_of_testBit hk

theorem sound_proto {dst : ℕ} (h : Named protoFlags dst) (value : Bytes) :
    Named protoFlags (wpaConfigParseProto dst value).2 := by
  have hnamed : Named (protoFlags ++ [(ascii "WPA2",1)]) (wpaConfigParseProto dst value).2 :=
    sound_flags (fun k hk => (h k hk).imp fun r hr => ⟨List.mem_append_left _ hr.1,hr.2⟩) value
  intro k hk
  obtain ⟨r,hr,rfl⟩ := hnamed k hk
  rcases List.mem_append.mp hr with hr | hr
  · exact ⟨r,hr,rfl⟩
  · rw [List.mem_singleton.mp hr]
    exact ⟨(ascii "RSN",1),List.mem_cons_of_mem _ List.mem_cons_self,rfl⟩

theorem sound_pairwise {dst : ℕ} (h : dst ≠ 0 ∧ dst.ldiff wpaAllowedPairwiseCiphers = 0)
    (value : Bytes) : (wpaConfigParsePairwise dst value).2 ≠ 0 ∧
      (wpaConfigParsePairwise dst value).2.ldiff wpaAllowedPairwiseCiphers = 0 := by
  unfold wpaConfigParsePairwise
  split
  · exact h
  split
  · exact h
  split
  · exact h
  · rename_i val hval hallowed _
    unfold wpaConfigParseCipher at hval
    simp only at hval
    split at hval
    · cases hval
    · rename_i hok
      have heq := Option.some_inj.mp hval
      exact ⟨fun h0 => hok (.inr (heq.trans h0)),not_not.mp hallowed⟩

theorem sound_group {dst : ℕ} (h : dst.ldiff wpaAllowedGroupCiphers = 0) (value : Bytes) :
    (wpaConfigParseGroup dst value).2.ldiff wpaAllowedGroupCiphers = 0 := by
  unfold wpaConfigParseGroup
  split
  · exact h
  simp only
  split
  · exact h
  split
  · exact h
  · rename_i hallowed _
    exact not_not.mp hallowed

theorem isFreq_of_mem {pos : Bytes} {f : ℤ} (h : f ∈ wpaConfigParseIntArray pos) : IsFreq f := by
  have hatoi : ∀ text : Bytes, -2^31 ≤ atoi text ∧ atoi text < 2^31 := by
    intro text
    unfold atoi
    exact ⟨Int.le_bmod (by norm_num),Int.bmod_lt (by norm_num)⟩
  induction pos using wpaConfigParseIntArray.induct with
  | case1 pos h0 =>
    rw [wpaConfigParseIntArray,if_pos h0] at h
    cases h
  | case2 pos h0 _ hend =>
    rw [wpaConfigParseIntArray,if_neg h0] at h
    simp only [dif_pos hend,List.mem_singleton] at h
    exact h ▸ ⟨h0,hatoi _⟩
  | case3 pos h0 _ hgo _ ih =>
    rw [wpaConfigParseIntArray,if_neg h0] at h
    simp only [dif_neg hgo] at h
    rcases List.mem_cons.mp h with rfl | h
    · exact ⟨h0,hatoi _⟩
    · exact ih h

theorem sound_freqs (value : Bytes) :
    ∀ freqs ∈ (parseFreqs value).2, freqs ≠ [] ∧ ∀ f ∈ freqs, IsFreq f := by
  intro freqs hf
  have hall : ∀ f ∈ wpaConfigParseIntArray value, IsFreq f := fun f hf => isFreq_of_mem hf
  unfold parseFreqs at hf
  generalize wpaConfigParseIntArray value = list at hf hall
  cases list with
  | nil => cases hf
  | cons f list =>
    rw [← Option.some_inj.mp hf]
    exact ⟨List.cons_ne_nil f list,fun g hg => hall g hg⟩

theorem sound_eap {dst : Option (List ℕ)} (value : Bytes)
    (h : ∀ methods ∈ dst, ∀ t ∈ methods, t ∈ eapMethodNames.map Prod.snd) :
    ∀ methods ∈ (wpaConfigParseEap dst value).2, ∀ t ∈ methods,
      t ∈ eapMethodNames.map Prod.snd := by
  have hstored : ∀ t ∈ ((words isBlank9 value).map eapPeerGetType).takeWhile (· ≠ eapTypeNone),
      t ∈ eapMethodNames.map Prod.snd := by
    intro t ht
    have hne : t ≠ eapTypeNone := by
      have hp := List.mem_takeWhile_imp ht
      exact of_decide_eq_true hp
    obtain ⟨w,-,rfl⟩ := List.mem_map.mp ((List.takeWhile_sublist _).subset ht)
    unfold eapPeerGetType at hne ⊢
    cases hfind : eapMethodNames.find? (·.1 == w) with
    | none =>
      rw [hfind] at hne
      exact absurd rfl hne
    | some r => exact List.mem_map_of_mem (List.mem_of_find?_eq_some hfind)
  intro methods hm
  unfold wpaConfigParseEap at hm
  simp only at hm
  split at hm
  · exact Option.some_inj.mp hm ▸ hstored
  split at hm
  · exact Option.some_inj.mp hm ▸ hstored
  split at hm
  · exact h methods hm
  · exact Option.some_inj.mp hm ▸ hstored

end Parsers

section Requests
variable {n : NetworkBlock} {f : FuncField} {d : ParseData}

theorem FuncField.sound_parser (h : f.Sound n) (value : Bytes) : f.Sound (f.parser n value).2 := by
  cases f with
  | bssid => exact sound_bssid h value
  | bssidBlacklist | bssidWhitelist => exact sound_addrs h value
  | psk => exact sound_psk value h
  | proto => exact sound_proto h value
  | keyMgmt | authAlg => exact sound_flags h value
  | pairwise => exact sound_pairwise h value
  | group => exact sound_group h value
  | scanFreq | freqList => exact sound_freqs value
  | eap => exact sound_eap value h
  | password => exact sound_password value h
  | wepKey idx =>
    change (Function.update n.wepKey idx (wpaConfigParseWepKey (n.wepKey idx) value).2 idx).1.length = _
    rw [Function.update_self]
    exact sound_wepKey h value

theorem ParseData.sound_parser (hd : d ∈ ssidFields) (h : d.Sound n) (value : Bytes) :
    d.Sound (d.parser n value).2 := by
  have hregular := ssidFields_checked.2.2 d hd
  obtain ⟨name,kind⟩ := d
  cases kind with
  | str hasLen minLen maxLen =>
    intro s hs
    change s ∈ Function.update n.strs name _ name at hs
    rw [Function.update_self] at hs
    exact sound_str value h s hs
  | int minValue maxValue =>
    obtain ⟨hmin,hmax,hmax',-⟩ := of_decide_eq_true hregular
    have hsound := sound_int hmin hmax hmax' value h
    simp only [ParseData.Sound,ParseData.parser,NetworkBlock.setInt,Function.update_self]
    exact hsound
  | func f => exact FuncField.sound_parser h value

theorem NetworkBlock.Sound.set (h : n.Sound) (var value : Bytes) :
    (wpaConfigSet n var value).2.Sound := by
  intro d hd
  rw [wpaConfigSet]
  cases hfind : findField var with
  | none => exact h d hd
  | some e =>
    obtain ⟨he,-⟩ := findField_mem hfind
    by_cases heq : d = e
    · rw [← heq]
      exact ParseData.sound_parser hd (h d hd) value
    · exact (h d hd).of_same (ParseData.frame hd he heq n value)

theorem NetworkBlock.Sound.updatePsk (h : n.Sound) (pbkdf2 : Pbkdf2) :
    (wpaConfigUpdatePsk pbkdf2 n).Sound := by
  intro d hd
  have hd := h d hd
  obtain ⟨name,kind⟩ := d
  cases kind with
  | str | int => exact hd
  | func f =>
    cases f
    case psk => exact ⟨hd.1,(pbkdf2 _ _).2⟩
    all_goals exact hd

theorem parsePsk_quoted {dst : PskMembers} {value : Bytes} (hquoted : value.head? = some 34)
    (hneg : ¬ (wpaConfigParsePsk dst value).1 < 0) (hone : (wpaConfigParsePsk dst value).1 ≠ 1) :
    (wpaConfigParsePsk dst value).2.passphrase ≠ none := by
  unfold wpaConfigParsePsk at hneg hone ⊢
  split
  · simp only at hneg hone ⊢
    split at hneg
    · exact absurd (show (-1 : ℤ) < 0 by decide) hneg
    split at hneg
    · exact absurd (show (-1 : ℤ) < 0 by decide) hneg
    · rename_i hlen hctrl
      rw [if_neg hlen,if_neg hctrl] at hone ⊢
      split
      · rename_i hsame
        exact absurd (by rw [if_pos hsame]) hone
      · exact Option.some_ne_none _
  · rename_i hno
    cases value with
    | nil => cases hquoted
    | cons c value => exact absurd (congrArg (· :: value) (Option.some_inj.mp hquoted)) (hno value)

theorem psk_mem : funcRow "psk" .psk ∈ ssidFields := by simp [ssidFields]

/-- A request sets the variable, and may then derive the key from a passphrase. -/
theorem NetworkBlock.update_cases (pbkdf2 : Pbkdf2) (n : NetworkBlock) (name value : Bytes) :
    (n.update pbkdf2 name value).1 = (if (wpaConfigSet n name value).1 < 0 then -1 else 0) ∧
    ((n.update pbkdf2 name value).2 = (wpaConfigSet n name value).2 ∨
      (wpaConfigSet n name value).2.psk.passphrase ≠ none ∧
        (n.update pbkdf2 name value).2 =
          wpaConfigUpdatePsk pbkdf2 (wpaConfigSet n name value).2) := by
  unfold NetworkBlock.update
  simp only
  split
  · exact ⟨rfl,.inl rfl⟩
  split
  · exact ⟨rfl,.inl rfl⟩
  split
  · rename_i hneg hone hwhen
    refine ⟨rfl,.inr ⟨?_,rfl⟩⟩
    rcases hwhen with ⟨rfl,hquoted,-⟩ | ⟨-,hphrase⟩
    · have hrow : wpaConfigSet n (ascii "psk") value = (funcRow "psk" .psk).parser n value :=
        set_row psk_mem n value
      rw [hrow] at hneg hone ⊢
      exact parsePsk_quoted hquoted hneg hone
    · exact hphrase
  · exact ⟨rfl,.inl rfl⟩

theorem NetworkBlock.Sound.update (h : n.Sound) (pbkdf2 : Pbkdf2) (name value : Bytes) :
    (n.update pbkdf2 name value).2.Sound := by
  rcases (n.update_cases pbkdf2 name value).2 with heq | ⟨-,heq⟩
  · exact heq ▸ h.set name value
  · exact heq ▸ (h.set name value).updatePsk pbkdf2

theorem named_of_lt {names : List (Bytes × ℕ)} {v m : ℕ} (hlt : v < 2^m)
    (hall : ∀ k < m, v.testBit k → ∃ r ∈ names, r.2 = k) : Named names v := by
  intro k hk
  refine hall k (Nat.lt_of_not_le fun hle => ?_) hk
  rw [Nat.testBit_lt_two_pow (hlt.trans_le (Nat.pow_le_pow_right Nat.two_pos hle))] at hk
  cases hk

theorem cipherDefault_allowed : wpaCipherDefault.ldiff wpaAllowedPairwiseCiphers = 0 ∧
    wpaCipherDefault.ldiff wpaAllowedGroupCiphers = 0 := by decide +kernel

/-- A new network is sound. -/
theorem sound_added : NetworkBlock.added.Sound := by
  intro d hd
  have hregular := ssidFields_checked.2.2 d hd
  obtain ⟨name,kind⟩ := d
  cases kind with
  | str => exact fun s hs => absurd hs (Option.not_mem_none s)
  | int => exact (of_decide_eq_true hregular).2.2.2
  | func f =>
    cases f with
    | bssid => exact rfl
    | bssidBlacklist | bssidWhitelist => exact fun a ha => absurd ha List.not_mem_nil
    | psk => exact ⟨fun phrase hp => absurd hp (Option.not_mem_none phrase),rfl⟩
    | proto => exact named_of_lt (m := 2) (by decide) (by decide)
    | keyMgmt => exact named_of_lt (m := 2) (by decide) (by decide)
    | pairwise => exact ⟨by decide,cipherDefault_allowed.1⟩
    | group => exact cipherDefault_allowed.2
    | authAlg => exact named_of_lt (m := 0) (by decide) (by decide)
    | scanFreq | freqList | eap => exact fun list hl => absurd hl (Option.not_mem_none list)
    | password =>
      intro password hp
      cases hp
    | wepKey idx => exact rfl

/-- Whatever is requested, every row keeps values that it has a text for. -/
theorem sound_updates (pbkdf2 : Pbkdf2) (reqs : List (Bytes × Bytes)) (h : n.Sound) :
    (n.updates pbkdf2 reqs).Sound := by
  induction reqs generalizing n with
  | nil => exact h
  | cons r reqs ih => exact ih (h.update pbkdf2 r.1 r.2)

end Requests

end WpaCliWrapper
