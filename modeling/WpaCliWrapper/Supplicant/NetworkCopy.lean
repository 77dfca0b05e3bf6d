import WpaCliWrapper.Exchange.Assigned
import WpaCliWrapper.Supplicant.NetworkRuns

/-! What `DUP_NETWORK` copies: a variable of one network is read from the text that another network has
for it. -/
namespace WpaCliWrapper
open CText Exchange

section Members
variable {n m o : NetworkBlock}

/-- What of the key can be seen: a key that comes from a passphrase is only derived from it. -/
def PskMembers.shown (p : PskMembers) : Option Bytes × Option (Bytes × Bool) :=
  (p.passphrase,if p.passphrase = none then some (p.psk,p.pskSet) else none)

/-- A WEP key without what is behind it in its array. -/
def wepShown (key : Bytes × ℕ) : ℕ × Bytes := (key.2,key.1.take key.2)

/-- Two networks have the same value of a row. -/
def FuncField.Alike (f : FuncField) (n m : NetworkBlock) : Prop :=
  match f with
  | .psk => n.psk.shown = m.psk.shown
  | .wepKey idx => wepShown (n.wepKey idx) = wepShown (m.wepKey idx)
  | f => f.Same n m

def ParseData.Alike (d : ParseData) (n m : NetworkBlock) : Prop :=
  match d.kind with
  | .func f => f.Alike n m
  | _ => d.Same n m

theorem ParseData.Same.alike {d : ParseData} (h : d.Same n m) : d.Alike n m := by
  obtain ⟨name,kind⟩ := d
  cases kind with
  | str | int => exact h
  | func f =>
    cases f
    case psk => exact congrArg PskMembers.shown h
    case wepKey idx => exact congrArg wepShown h
    all_goals exact h

theorem ParseData.Alike.trans {d : ParseData} (h : d.Alike n m) (h' : d.Alike m o) :
    d.Alike n o := by
  obtain ⟨name,kind⟩ := d
  cases kind with
  | str | int => exact Eq.trans h h'
  | func f => cases f <;> exact Eq.trans h h'

theorem updatePsk_alike (pbkdf2 : Pbkdf2) (h : n.psk.passphrase ≠ none) (d : ParseData) :
    d.Alike (wpaConfigUpdatePsk pbkdf2 n) n := by
  obtain ⟨name,kind⟩ := d
  cases kind with
  | str | int => exact rfl
  | func f =>
    cases f
    case psk =>
      change (n.psk.passphrase,if n.psk.passphrase = none then _ else none) = n.psk.shown
      rw [PskMembers.shown,if_neg h,if_neg h]
    all_goals exact rfl

/-- A request does to the values what setting the variable does. -/
theorem update_alike (pbkdf2 : Pbkdf2) (n : NetworkBlock) (name value : Bytes) (d : ParseData) :
    d.Alike (n.update pbkdf2 name value).2 (wpaConfigSet n name value).2 := by
  rcases (n.update_cases pbkdf2 name value).2 with heq | ⟨hphrase,heq⟩
  · exact heq ▸ (d.same_refl _).alike
  · exact heq ▸ updatePsk_alike pbkdf2 hphrase d

/-- The variables of a network as the parts of a state. -/
def networkVars (pbkdf2 : Pbkdf2) : Assignments NetworkBlock Bytes Bytes where
  assign n l := (n.update pbkdf2 l.1 l.2).2
  same var n m := ∀ d ∈ ssidFields, ascii d.name = var → d.Alike n m
  refl _ n d _ _ := (d.same_refl n).alike
  trans h h' d hd hvar := (h d hd hvar).trans (h' d hd hvar)
  frame := by
    rintro var n l hne d hd rfl
    refine (update_alike pbkdf2 n l.1 l.2 d).trans (ParseData.Same.alike ?_)
    rw [wpaConfigSet]
    cases hfind : findField l.1 with
    | none => exact d.same_refl n
    | some e =>
      obtain ⟨he,hname⟩ := findField_mem hfind
      exact ParseData.frame hd he (fun heq => hne (heq ▸ hname.symm)) n l.2

end Members

section ReadBack
variable {n m : NetworkBlock} {f : FuncField} {d : ParseData} {text : Bytes}

/-- The text of the row has room for all of the value, and has a name for it. -/
def FuncField.Fits (f : FuncField) (n : NetworkBlock) : Prop :=
  match f with
  | .group => n.groupCipher ≠ 0 ∧ n.groupCipher.testBit 14 = false
  | .scanFreq => ∀ freqs ∈ n.scanFreq, (joined (freqs.map unsignedText)).length ≤ 10*freqs.length
  | .freqList => ∀ freqs ∈ n.freqList, (joined (freqs.map unsignedText)).length ≤ 10*freqs.length
  | .eap => ∀ methods ∈ n.eapMethods, (joined (methods.filterMap eapGetName)).length < 100
  | _ => True

def ParseData.Fits (d : ParseData) (n : NetworkBlock) : Prop :=
  match d.kind with
  | .func f => f.Fits n
  | _ => True

theorem named_of_ldiff {names : List (Bytes × ℕ)} {v allowed : ℕ} (h : v.ldiff allowed = 0)
    (hlt : allowed < 2^15)
    (hall : ∀ k < 15, allowed.testBit k → v.testBit k → ∃ r ∈ names, r.2 = k) : Named names v := by
  intro k hk
  have hallowed : allowed.testBit k := by
    have hbit : (v.ldiff allowed).testBit k = false := h ▸ Nat.zero_testBit k
    rw [Nat.testBit_ldiff,hk] at hbit
    simpa using hbit
  refine hall k (Nat.lt_of_not_le fun hle => ?_) hallowed hk
  rw [Nat.testBit_lt_two_pow (hlt.trans_le (Nat.pow_le_pow_right Nat.two_pos hle))] at hallowed
  cases hallowed

theorem flags_ne_zero {names : List (Bytes × ℕ)} {v size : ℕ} (hv : Named names v)
    (h : writeFlags size names v = some text) : v ≠ 0 := by
  intro h0
  rw [writeFlags,if_pos ((flagNames_eq_nil_iff hv).mpr h0)] at h
  cases h

theorem readBack_named {names table : List (Bytes × ℕ)} {v size : ℕ} (hs : Spells names table size)
    (hv : Named names v) (h : writeFlags size names v = some text) (dst : ℕ) :
    0 ≤ (parseFlags table dst text).1 ∧ (parseFlags table dst text).2 = v := by
  obtain ⟨hwrite,hread⟩ := readBack_flags hs hv (flags_ne_zero hv h)
  obtain ⟨r,hr,hpos⟩ := hread dst
  rw [← Option.some_inj.mp (hwrite.symm.trans h),hr]
  exact ⟨hpos,rfl⟩

theorem readBack_list {list : List (Bytes × Bytes)} (hlist : ∀ a ∈ list, IsMasked a)
    (h : wpaConfigWriteAddrList list = some text) (dst : List (Bytes × Bytes)) :
    wpaConfigParseAddrList true true dst text = (0,list) := by
  have hne : list ≠ [] := fun hnil => by
    rw [wpaConfigWriteAddrList,if_pos hnil] at h
    cases h
  obtain ⟨hwrite,hread⟩ := readBack_addrs hne hlist
  exact Option.some_inj.mp (hwrite.symm.trans h) ▸ hread dst

theorem readBack_frequencies {freqs : Option (List ℤ)}
    (hfreqs : ∀ l ∈ freqs, l ≠ [] ∧ ∀ f ∈ l, IsFreq f)
    (hfits : ∀ l ∈ freqs, (joined (l.map unsignedText)).length ≤ 10*l.length)
    (h : wpaConfigWriteFreqs freqs = some text) : parseFreqs text = (0,freqs) := by
  cases freqs with
  | none => cases h
  | some l =>
    obtain ⟨hne,hall⟩ := hfreqs l rfl
    obtain ⟨hwrite,hread⟩ := readBack_freqs hall hne (hfits l rfl)
    exact Option.some_inj.mp (hwrite.symm.trans h) ▸ hread

theorem readBack_key {src dst : PskMembers}
    (hsound : (∀ phrase ∈ src.passphrase, IsPassphrase phrase) ∧ src.psk.length = pmkLen)
    (hdst : dst.shown = NetworkBlock.added.psk.shown) (h : wpaConfigWritePsk src = some text) :
    (wpaConfigParsePsk dst text).1 = 0 ∧ (wpaConfigParsePsk dst text).2.shown = src.shown := by
  have hphrase : dst.passphrase = none := congrArg Prod.fst hdst
  have hpsk : dst.psk.length = pmkLen := by
    have hkey := congrArg Prod.snd hdst
    simp only [PskMembers.shown,if_pos hphrase] at hkey
    exact congrArg (fun key => key.1.length) (Option.some_inj.mp hkey)
  obtain ⟨passphrase,psk,pskSet⟩ := src
  cases passphrase with
  | some phrase =>
    have htext : wpaConfigWriteStringAscii phrase = text := Option.some_inj.mp h
    rw [← htext,readBack_passphrase (hsound.1 phrase rfl) hphrase]
    exact ⟨rfl,rfl⟩
  | none =>
    cases pskSet with
    | false => cases h
    | true =>
      have htext : wpaConfigWriteStringHex psk = text := Option.some_inj.mp h
      rw [← htext,readBack_psk hsound.2 hpsk]
      exact ⟨rfl,rfl⟩

theorem readBack_secret {src : PasswordMembers}
    (hsound : ∀ password, src = (some password,true) → password.length = 16)
    (h : wpaConfigWritePassword src = .ok (some text)) :
    wpaConfigParsePassword (none,false) text = (0,src) := by
  obtain ⟨password,hashed⟩ := src
  cases password with
  | none => cases h
  | some password =>
    cases hashed with
    | false =>
      have htext : wpaConfigWriteString password = text := Option.some_inj.mp (Except.ok.inj h)
      exact htext ▸ readBack_password password
    | true =>
      have hlen := hsound password rfl
      rw [wpaConfigWritePassword,if_neg (by omega),List.take_of_length_le hlen.le] at h
      exact Option.some_inj.mp (Except.ok.inj h) ▸ readBack_hash hlen

theorem readBack_wep {src : Bytes × ℕ} (hsound : src.1.length = maxWepKeyLen)
    (h : wpaConfigWriteWepKey src = .ok (some text)) (dst : Bytes × ℕ) :
    (wpaConfigParseWepKey dst text).1 = 0 ∧
      wepShown (wpaConfigParseWepKey dst text).2 = wepShown src := by
  unfold wpaConfigWriteWepKey at h
  split at h
  · cases h
  split at h
  · cases h
  · rename_i hlt
    have hlen : (src.1.take src.2).length = src.2 := List.length_take_of_le (Nat.le_of_not_lt hlt)
    rw [← Option.some_inj.mp (Except.ok.inj h),readBack_wepKey (by omega)]
    refine ⟨rfl,?_⟩
    rw [wepShown,wepShown,overwrite,List.take_left' rfl,hlen]

/-- The text of a value that fits is read as that value by a network that has the default. -/
theorem FuncField.readBack (hsound : f.Sound n) (hm : f.Alike m NetworkBlock.added)
    (hfits : f.Fits n) (h : f.writer n = .ok (some text)) :
    0 ≤ (f.parser m text).1 ∧ f.Alike (f.parser m text).2 n := by
  cases f with
  | bssid =>
    have hwrite : wpaConfigWriteBssid n.bssid = some text := Except.ok.inj h
    unfold wpaConfigWriteBssid at hwrite
    split at hwrite
    · rename_i hset
      have hread := readBack_bssid hsound m.bssid
      rw [Option.some_inj.mp hwrite] at hread
      change 0 ≤ (wpaConfigParseBssid m.bssid text).1 ∧ (wpaConfigParseBssid m.bssid text).2 = n.bssid
      rw [hread]
      exact ⟨Int.le_refl 0,Prod.ext rfl hset.symm⟩
    · cases hwrite
  | bssidBlacklist =>
    have hread := readBack_list hsound (Except.ok.inj h) m.bssidBlacklist
    exact ⟨(congrArg Prod.fst hread).ge,congrArg Prod.snd hread⟩
  | bssidWhitelist =>
    have hread := readBack_list hsound (Except.ok.inj h) m.bssidWhitelist
    exact ⟨(congrArg Prod.fst hread).ge,congrArg Prod.snd hread⟩
  | psk =>
    obtain ⟨hread,hshown⟩ := readBack_key hsound hm (Except.ok.inj h)
    exact ⟨hread.ge,hshown⟩
  | proto => exact readBack_named names_read.1.1 hsound (Except.ok.inj h) m.proto
  | keyMgmt => exact readBack_named names_read.1.2.1 hsound (Except.ok.inj h) m.keyMgmt
  | authAlg => exact readBack_named names_read.1.2.2.1 hsound (Except.ok.inj h) m.authAlg
  | pairwise =>
    have hnamed : Named writtenCiphers n.pairwiseCipher :=
      named_of_ldiff hsound.2 (by decide) fun k hk hbit _ =>
        (by decide : ∀ k < 15, wpaAllowedPairwiseCiphers.testBit k →
          ∃ r ∈ writtenCiphers, r.2 = k) k hk hbit
    obtain ⟨r,hr,hpos⟩ := readBack_pairwise hnamed hsound.1 hsound.2 m.pairwiseCipher
    have hwrite := (readBack_cipher hnamed hsound.1).1
    rw [Option.some_inj.mp (hwrite.symm.trans (Except.ok.inj h))] at hr
    exact ⟨hpos.trans (congrArg Prod.fst hr).ge,congrArg Prod.snd hr⟩
  | group =>
    have hnamed : Named writtenCiphers n.groupCipher :=
      named_of_ldiff hsound (by decide) fun k hk hbit hv =>
        (by decide : ∀ k < 15, k ≠ 14 → wpaAllowedGroupCiphers.testBit k →
          ∃ r ∈ writtenCiphers, r.2 = k) k hk
          (fun h14 => Bool.false_ne_true (hfits.2.symm.trans (h14 ▸ hv))) hbit
    obtain ⟨r,hr,hpos⟩ := readBack_group hnamed hfits.1 hsound m.groupCipher
    have hwrite := (readBack_cipher hnamed hfits.1).1
    rw [Option.some_inj.mp (hwrite.symm.trans (Except.ok.inj h))] at hr
    exact ⟨hpos.trans (congrArg Prod.fst hr).ge,congrArg Prod.snd hr⟩
  | scanFreq =>
    have hread := readBack_frequencies hsound hfits (Except.ok.inj h)
    exact ⟨(congrArg Prod.fst hread).ge,congrArg Prod.snd hread⟩
  | freqList =>
    have hread := readBack_frequencies hsound hfits (Except.ok.inj h)
    exact ⟨(congrArg Prod.fst hread).ge,congrArg Prod.snd hread⟩
  | eap =>
    have hnone : m.eapMethods = none := hm
    have hwrite : wpaConfigWriteEap n.eapMethods = some text := Except.ok.inj h
    change 0 ≤ (wpaConfigParseEap m.eapMethods text).1 ∧
      (wpaConfigParseEap m.eapMethods text).2 = n.eapMethods
    rw [hnone]
    cases hmethods : n.eapMethods with
    | none =>
      rw [hmethods] at hwrite
      cases hwrite
    | some methods =>
      obtain ⟨hwrite',hread,-⟩ := readBack_eap (hsound methods hmethods) (hfits methods hmethods)
      rw [hmethods] at hwrite
      rw [← Option.some_inj.mp (hwrite'.symm.trans hwrite),hread]
      exact ⟨Int.le_refl 0,rfl⟩
  | password =>
    have hdst : m.password = (none,false) := hm
    have hread := readBack_secret hsound h
    rw [← hdst] at hread
    exact ⟨(congrArg Prod.fst hread).ge,congrArg Prod.snd hread⟩
  | wepKey idx =>
    obtain ⟨hread,hshown⟩ := readBack_wep hsound h (m.wepKey idx)
    refine ⟨hread.ge,?_⟩
    change wepShown (Function.update m.wepKey idx _ idx) = _
    rw [Function.update_self]
    exact hshown

theorem ParseData.readBack (hd : d ∈ ssidFields) (hsound : d.Sound n)
    (hm : d.Alike m NetworkBlock.added) (hfits : d.Fits n) (h : d.writer n = .ok (some text)) :
    0 ≤ (d.parser m text).1 ∧ d.Alike (d.parser m text).2 n := by
  have hregular := ssidFields_checked.2.2 d hd
  obtain ⟨name,kind⟩ := d
  cases kind with
  | str hasLen minLen maxLen =>
    have hmin : minLen = 0 := of_decide_eq_true hregular
    have hnone : m.strs name = none := hm
    change Except.ok ((n.strs name).map wpaConfigWriteString) = _ at h
    obtain ⟨s,hs,htext⟩ := Option.map_eq_some_iff.mp (Except.ok.inj h)
    obtain ⟨hmax,hnul⟩ := hsound s hs
    have hmin' : minLen ≤ s.length := hmin ▸ Nat.zero_le s.length
    have hread := readBack_str hmin' hmax hnul
    rw [htext,← hnone] at hread
    refine ⟨(congrArg Prod.fst hread).ge,?_⟩
    change Function.update m.strs name _ name = n.strs name
    rw [Function.update_self,hs]
    exact congrArg Prod.snd hread
  | int minValue maxValue =>
    obtain ⟨hmin,-⟩ := of_decide_eq_true hregular
    obtain ⟨hlow,hhigh,hmax⟩ := hsound
    have htext : decimal (n.ints name) = text := Option.some_inj.mp (Except.ok.inj h)
    obtain ⟨r,hread,hpos⟩ : ∃ r, wpaConfigParseInt minValue maxValue (m.ints name)
        (decimal (n.ints name)) = (r,n.ints name) ∧ 0 ≤ r :=
      readBack_int ⟨hlow,hhigh⟩ (fun h0 => absurd hmin h0) hmax
    rw [htext] at hread
    refine ⟨hpos.trans (congrArg Prod.fst hread).ge,?_⟩
    change Function.update m.ints name _ name = n.ints name
    rw [Function.update_self]
    exact congrArg Prod.snd hread
  | func f => exact FuncField.readBack hsound hm hfits h

end ReadBack

section Copies
variable {src dst copy : NetworkBlock} {d : ParseData} {names : List Bytes} {text : Bytes}

theorem get_row (hd : d ∈ ssidFields) (n : NetworkBlock) :
    wpaConfigGet n (ascii d.name) = (d.writer n).map fun value => value.filter (!hasNewline ·) := by
  rw [wpaConfigGet,findField_name hd,Option.elim_some]

theorem writer_of_get (hd : d ∈ ssidFields) (h : wpaConfigGet src (ascii d.name) = .ok (some text)) :
    d.writer src = .ok (some text) := by
  rw [get_row hd] at h
  cases hwriter : d.writer src with
  | error e =>
    rw [hwriter] at h
    cases h
  | ok value =>
    rw [hwriter] at h
    rw [(Option.filter_eq_some_iff.mp (Except.ok.inj h)).1]

theorem password_inside {src : PasswordMembers}
    (hsound : ∀ password, src = (some password,true) → password.length = 16) :
    wpaConfigWritePassword src ≠ .error .outside := by
  obtain ⟨password,hashed⟩ := src
  cases password with
  | none => exact fun h => by cases h
  | some password =>
    cases hashed with
    | false => exact fun h => by cases h
    | true =>
      rw [wpaConfigWritePassword,if_neg (by rw [hsound password rfl]; decide)]
      exact fun h => by cases h

theorem wepKey_outside_iff {src : Bytes × ℕ} (hsound : src.1.length = maxWepKeyLen) :
    wpaConfigWriteWepKey src = .error .outside ↔ maxWepKeyLen < src.2 := by
  unfold wpaConfigWriteWepKey
  split
  · rename_i h0
    exact ⟨fun h => (by cases h),fun h => absurd h (h0 ▸ Nat.not_lt_zero _)⟩
  split
  · rename_i hlt
    exact ⟨fun _ => hsound ▸ hlt,fun _ => rfl⟩
  · rename_i hle
    exact ⟨fun h => (by cases h),fun h => absurd (hsound ▸ h) hle⟩

theorem writer_outside_iff (hsound : d.Sound src) : d.writer src = .error .outside ↔
    ∃ idx, d.kind = .func (.wepKey idx) ∧ maxWepKeyLen < (src.wepKey idx).2 := by
  obtain ⟨name,kind⟩ := d
  constructor
  · intro h
    cases kind with
    | str | int => cases h
    | func f =>
      cases f
      case password => exact absurd h (password_inside hsound)
      case wepKey idx => exact ⟨idx,rfl,(wepKey_outside_iff hsound).mp h⟩
      all_goals cases h
  · rintro ⟨idx,hkind,hlong⟩
    change kind = _ at hkind
    rw [hkind] at hsound ⊢
    exact (wepKey_outside_iff hsound).mpr hlong

theorem get_outside (hd : d ∈ ssidFields) (hsound : d.Sound src) :
    wpaConfigGet src (ascii d.name) = .error .outside ↔
      ∃ idx, d.kind = .func (.wepKey idx) ∧ maxWepKeyLen < (src.wepKey idx).2 := by
  rw [get_row hd,← writer_outside_iff hsound]
  cases d.writer src with
  | error e => exact Iff.rfl
  | ok value => exact ⟨fun h => (by cases h),fun h => (by cases h)⟩

/-- A name is read when it is not one of a WEP key that is longer than its array. -/
theorem get_ok (hsound : ∀ d ∈ ssidFields, d.Sound src) {name : Bytes}
    (hwep : ∀ d ∈ ssidFields, ascii d.name = name → ∀ idx, d.kind = .func (.wepKey idx) →
      (src.wepKey idx).2 ≤ maxWepKeyLen) : ∃ value, wpaConfigGet src name = .ok value := by
  cases hget : wpaConfigGet src name with
  | ok value => exact ⟨value,rfl⟩
  | error e =>
    cases e
    cases hfind : findField name with
    | none =>
      rw [wpaConfigGet,hfind] at hget
      cases hget
    | some d =>
      obtain ⟨hd,rfl⟩ := findField_mem hfind
      obtain ⟨idx,hkind,hlong⟩ := (get_outside hd (hsound d hd)).mp hget
      exact absurd (hwep d hd rfl idx hkind) (Nat.not_le.mpr hlong)

/-- A request for one variable is answered with `OK`, and copies the value. -/
theorem dup_accepted (pbkdf2 : Pbkdf2) (hd : d ∈ ssidFields) (hsound : d.Sound src)
    (hdst : d.Alike dst .added) (hfits : d.Fits src)
    (hget : wpaConfigGet src (ascii d.name) = .ok (some text)) :
    src.dup pbkdf2 dst (ascii d.name) = .ok (0,(dst.update pbkdf2 (ascii d.name) text).2) ∧
      d.Alike (dst.update pbkdf2 (ascii d.name) text).2 src := by
  obtain ⟨hpos,hread⟩ := ParseData.readBack hd hsound hdst hfits (writer_of_get hd hget)
  have hcode := (dst.update_cases pbkdf2 (ascii d.name) text).1
  have hupdate := update_alike pbkdf2 dst (ascii d.name) text d
  rw [set_row hd] at hcode hupdate
  rw [if_neg (Int.not_lt.mpr hpos)] at hcode
  rw [NetworkBlock.dup,hget]
  exact ⟨congrArg Except.ok (Prod.ext hcode rfl),hupdate.trans hread⟩

/-- `DUP_NETWORK` for one variable after another. -/
def NetworkBlock.dups (pbkdf2 : Pbkdf2) (src : NetworkBlock) :
    NetworkBlock → List Bytes → Except ConfigFault NetworkBlock
  | dst, [] => .ok dst
  | dst, name :: names => do
    let r ← src.dup pbkdf2 dst name
    NetworkBlock.dups pbkdf2 src r.2 names

theorem dups_ok (dst : NetworkBlock) (pbkdf2 : Pbkdf2)
    (h : ∀ name ∈ names, ∃ value, wpaConfigGet src name = .ok value) :
    ∃ copy, src.dups pbkdf2 dst names = .ok copy := by
  induction names generalizing dst with
  | nil => exact ⟨dst,rfl⟩
  | cons name names ih =>
    obtain ⟨value,hget⟩ := h name List.mem_cons_self
    have hrest : ∀ name ∈ names, ∃ value, wpaConfigGet src name = .ok value :=
      fun name hname => h name (List.mem_cons_of_mem _ hname)
    rw [NetworkBlock.dups,NetworkBlock.dup,hget]
    cases value with
    | none => exact ih dst hrest
    | some text => exact ih _ hrest

/-- The variables that have a text. -/
def NetworkBlock.texts (src : NetworkBlock) (names : List Bytes) : List (Bytes × Bytes) :=
  names.filterMap fun name =>
    ((wpaConfigGet src name).toOption.bind id).map fun text => (name,text)

theorem dups_eq {pbkdf2 : Pbkdf2} (h : src.dups pbkdf2 dst names = .ok copy) :
    copy = (networkVars pbkdf2).all dst (src.texts names) := by
  induction names generalizing dst with
  | nil =>
    cases h
    rfl
  | cons name names ih =>
    rw [NetworkBlock.dups,NetworkBlock.dup] at h
    rw [NetworkBlock.texts,List.filterMap_cons]
    cases hget : wpaConfigGet src name with
    | error e =>
      rw [hget] at h
      cases h
    | ok value =>
      rw [hget] at h
      cases value with
      | none => exact ih h
      | some text => exact ih h

theorem texts_sublist (src : NetworkBlock) (names : List Bytes) :
    ((src.texts names).map Prod.fst).Sublist names := by
  induction names with
  | nil => exact List.Sublist.refl _
  | cons name names ih =>
    rw [NetworkBlock.texts,List.filterMap_cons]
    cases (wpaConfigGet src name).toOption.bind id with
    | none => exact ih.cons name
    | some text => exact ih.cons_cons name

theorem mem_texts (hname : ascii d.name ∈ names)
    (hget : wpaConfigGet src (ascii d.name) = .ok (some text)) :
    (ascii d.name,text) ∈ src.texts names :=
  List.mem_filterMap.mpr ⟨ascii d.name,hname,by rw [hget]; rfl⟩

theorem not_mem_texts (h : ascii d.name ∉ names ∨ wpaConfigGet src (ascii d.name) = .ok none) :
    ascii d.name ∉ (src.texts names).map Prod.fst := by
  rcases h with h | h
  · exact fun hmem => h ((texts_sublist src names).subset hmem)
  · intro hmem
    obtain ⟨l,hl,hname⟩ := List.mem_map.mp hmem
    obtain ⟨name,-,heq⟩ := List.mem_filterMap.mp hl
    obtain ⟨text,htext,rfl⟩ := Option.map_eq_some_iff.mp heq
    rw [show name = ascii d.name from hname,h] at htext
    cases htext

/-- A new network that gets variables of another one by `DUP_NETWORK` has the same values of them, in
whichever order they are named, and keeps its defaults otherwise. It has no way to get a WEP key that
is longer than its array, a group cipher without a name, or a list that is longer than its text. -/
theorem network_copied (pbkdf2 : Pbkdf2) (reqs : List (Bytes × Bytes)) (hnodup : names.Nodup)
    (hwep : ∀ d ∈ ssidFields, ascii d.name ∈ names → ∀ idx, d.kind = .func (.wepKey idx) →
      ((NetworkBlock.added.updates pbkdf2 reqs).wepKey idx).2 ≤ maxWepKeyLen) :
    ∃ copy, (NetworkBlock.added.updates pbkdf2 reqs).dups pbkdf2 .added names = .ok copy ∧
      ∀ d ∈ ssidFields, d.Fits (NetworkBlock.added.updates pbkdf2 reqs) →
        (∀ text, ascii d.name ∈ names →
          wpaConfigGet (NetworkBlock.added.updates pbkdf2 reqs) (ascii d.name) = .ok (some text) →
            d.Alike copy (NetworkBlock.added.updates pbkdf2 reqs)) ∧
        (ascii d.name ∉ names ∨
          wpaConfigGet (NetworkBlock.added.updates pbkdf2 reqs) (ascii d.name) = .ok none →
            d.Alike copy .added) := by
  have hsound := sound_updates pbkdf2 reqs sound_added
  generalize NetworkBlock.added.updates pbkdf2 reqs = src at *
  have hget : ∀ name ∈ names, ∃ value, wpaConfigGet src name = .ok value := fun name hname =>
    get_ok hsound fun d hd heq => hwep d hd (heq ▸ hname)
  obtain ⟨copy,hcopy⟩ := dups_ok .added pbkdf2 hget
  refine ⟨copy,hcopy,fun d hd hfits => ?_⟩
  rw [dups_eq hcopy]
  refine ⟨fun text hname hget => ?_,fun hnone => ?_⟩
  · obtain ⟨t,ht,hall⟩ := Assignments.assigned (A := networkVars pbkdf2)
      (hnodup.sublist (texts_sublist src names)) (mem_texts hname hget) .added
    exact (hall d hd rfl).trans (dup_accepted pbkdf2 hd (hsound d hd) (ht d hd rfl) hfits hget).2
  · exact Assignments.untouched (A := networkVars pbkdf2) (not_mem_texts hnone) .added d hd rfl

def samplePbkdf2 : Pbkdf2 := fun _ _ => ⟨List.replicate pmkLen 0,List.length_replicate⟩

def sampleRequests : List (Bytes × Bytes) :=
  [(ascii "ssid",ascii "\"cafe\""),(ascii "psk",ascii "\"seventeen\""),(ascii "priority",ascii "3")]

def sampleNetwork : NetworkBlock := NetworkBlock.added.updates samplePbkdf2 sampleRequests

theorem ssid_mem : (⟨"ssid",.str true 0 ssidMaxLen⟩ : ParseData) ∈ ssidFields := List.mem_cons_self

theorem priority_mem : intRow "priority" ∈ ssidFields := by simp [ssidFields]

theorem sample_wep (idx : ℕ) : (sampleNetwork.wepKey idx).2 = 0 := rfl

theorem sample_get : wpaConfigGet sampleNetwork (ascii "ssid") = .ok (some (ascii "\"cafe\"")) ∧
    wpaConfigGet sampleNetwork (ascii "psk") = .ok (some (ascii "\"seventeen\"")) ∧
    sampleNetwork.ints "priority" = 3 := ⟨rfl,rfl,rfl⟩

theorem network_copied_sample : ∃ copy swapped,
    sampleNetwork.dups samplePbkdf2 .added [ascii "ssid",ascii "psk"] = .ok copy ∧
    sampleNetwork.dups samplePbkdf2 .added [ascii "psk",ascii "ssid"] = .ok swapped ∧
    (copy.strs "ssid" = sampleNetwork.strs "ssid" ∧ swapped.strs "ssid" = sampleNetwork.strs "ssid") ∧
    (copy.psk.shown = sampleNetwork.psk.shown ∧ swapped.psk.shown = sampleNetwork.psk.shown) ∧
    copy.ints "priority" = 0 ∧ swapped.ints "priority" = 0 := by
  have hwep : ∀ idx, (sampleNetwork.wepKey idx).2 ≤ maxWepKeyLen := fun idx =>
    (sample_wep idx).trans_le (Nat.zero_le _)
  obtain ⟨copy,hcopy,hrows⟩ := network_copied samplePbkdf2 sampleRequests
    (by decide : [ascii "ssid",ascii "psk"].Nodup) fun _ _ _ idx _ => hwep idx
  obtain ⟨swapped,hswapped,hrows'⟩ := network_copied samplePbkdf2 sampleRequests
    (by decide : [ascii "psk",ascii "ssid"].Nodup) fun _ _ _ idx _ => hwep idx
  exact ⟨copy,swapped,hcopy,hswapped,
    ⟨(hrows _ ssid_mem trivial).1 _ (by decide) sample_get.1,
      (hrows' _ ssid_mem trivial).1 _ (by decide) sample_get.1⟩,
    ⟨(hrows _ psk_mem trivial).1 _ (by decide) sample_get.2.1,
      (hrows' _ psk_mem trivial).1 _ (by decide) sample_get.2.1⟩,
    (hrows _ priority_mem trivial).2 (.inl (by decide)),
    (hrows' _ priority_mem trivial).2 (.inl (by decide))⟩

/-- A variable is read outside of its array exactly when it is a WEP key with a length that its array
does not have. A request that is refused leaves such a length behind. -/
theorem get_outside_iff (pbkdf2 : Pbkdf2) (reqs : List (Bytes × Bytes)) (hd : d ∈ ssidFields) :
    (wpaConfigGet (NetworkBlock.added.updates pbkdf2 reqs) (ascii d.name) = .error .outside ↔
      ∃ idx, d.kind = .func (.wepKey idx) ∧
        maxWepKeyLen < ((NetworkBlock.added.updates pbkdf2 reqs).wepKey idx).2) ∧
    ∀ idx value key, d.kind = .func (.wepKey idx) → wpaConfigParseString value = some key →
      maxWepKeyLen < key.length →
      ((NetworkBlock.added.updates pbkdf2 reqs).update pbkdf2 (ascii d.name) value).1 = -1 ∧
      (((NetworkBlock.added.updates pbkdf2 reqs).update pbkdf2 (ascii d.name) value).2.wepKey
        idx).2 = key.length := by
  have hsound := sound_updates pbkdf2 reqs sound_added d hd
  generalize NetworkBlock.added.updates pbkdf2 reqs = src at *
  constructor
  · exact get_outside hd hsound
  · intro idx value key hkind hkey hlong
    have hparse : wpaConfigParseWepKey (src.wepKey idx) value =
        (-1,(src.wepKey idx).1,key.length) := by
      rw [wpaConfigParseWepKey,hkey]
      exact if_pos hlong
    have hrow : d.parser src value =
        (-1,{ src with wepKey := Function.update src.wepKey idx ((src.wepKey idx).1,key.length) }) := by
      rw [ParseData.parser,hkind]
      change FuncField.parser (.wepKey idx) src value = _
      rw [FuncField.parser,hparse]
    rw [NetworkBlock.update,set_row hd,hrow]
    simp only
    rw [if_pos (by decide : (-1 : ℤ) < 0)]
    refine ⟨rfl,?_⟩
    change (Function.update src.wepKey idx ((src.wepKey idx).1,key.length) idx).2 = key.length
    rw [Function.update_self]

theorem wepKey_mem : funcRow "wep_key0" (.wepKey 0) ∈ ssidFields := by simp [ssidFields]

theorem get_outside_iff_sample : ((sampleNetwork.update samplePbkdf2 (ascii "wep_key0")
    (ascii "\"seventeen letters\"")).2.wepKey 0).2 = 17 :=
  ((get_outside_iff samplePbkdf2 _ wepKey_mem).2 0 (ascii "\"seventeen letters\"")
    (ascii "seventeen letters") rfl rfl (by decide)).2

end Copies

end WpaCliWrapper
