import Mathlib.Logic.Function.Basic
import WpaCliWrapper.Supplicant.NetworkFields

/-! A network with all of its variables: `struct wpa_ssid` as far as `ssid_fields` has rows for it, the
table itself, and what sets and gets a variable by its name. -/
namespace WpaCliWrapper
open CText

/-- `struct wpa_ssid` of a build with the options of `.config`; strings and numbers are found by the
names of their rows, the WEP keys by their index. -/
structure NetworkBlock where
  strs : String → Option Bytes
  ints : String → ℤ
  bssid : Bytes × Bool
  bssidBlacklist : List (Bytes × Bytes)
  bssidWhitelist : List (Bytes × Bytes)
  psk : PskMembers
  proto : ℕ
  keyMgmt : ℕ
  pairwiseCipher : ℕ
  groupCipher : ℕ
  authAlg : ℕ
  scanFreq : Option (List ℤ)
  freqList : Option (List ℤ)
  eapMethods : Option (List ℕ)
  password : PasswordMembers
  wepKey : ℕ → Bytes × ℕ

/-- The rows that have a parser and a writer of their own. -/
inductive FuncField
  | bssid | bssidBlacklist | bssidWhitelist | psk | proto | keyMgmt | pairwise | group | authAlg
  | scanFreq | freqList | eap | password | wepKey (idx : ℕ)
  deriving DecidableEq

inductive FieldKind
  | str (hasLen : Bool) (minLen maxLen : ℕ)
  | int (minValue maxValue : ℤ)
  | func (f : FuncField)
  deriving DecidableEq

/-- `struct parse_data` -/
structure ParseData where
  name : String
  kind : FieldKind
  deriving DecidableEq

section Table

def strRow (name : String) : ParseData := ⟨name,.str false 0 0⟩
def strLenRow (name : String) : ParseData := ⟨name,.str true 0 0⟩
def intRow (name : String) : ParseData := ⟨name,.int 0 0⟩
def intRangeRow (name : String) (minValue maxValue : ℤ) : ParseData :=
  ⟨name,.int minValue maxValue⟩
def funcRow (name : String) (f : FuncField) : ParseData := ⟨name,.func f⟩

def ssidFields : List ParseData :=
  [⟨"ssid",.str true 0 ssidMaxLen⟩,intRangeRow "scan_ssid" 0 1,funcRow "bssid" .bssid,
    funcRow "bssid_blacklist" .bssidBlacklist,funcRow "bssid_whitelist" .bssidWhitelist,
    funcRow "psk" .psk,intRow "mem_only_psk",funcRow "proto" .proto,
    funcRow "key_mgmt" .keyMgmt,intRow "bg_scan_period",funcRow "pairwise" .pairwise,
    funcRow "group" .group,funcRow "auth_alg" .authAlg,funcRow "scan_freq" .scanFreq,
    funcRow "freq_list" .freqList,intRangeRow "max_oper_chwidth" 0 3,funcRow "eap" .eap,
    strLenRow "identity",strLenRow "anonymous_identity",funcRow "password" .password,
    strRow "ca_cert",strRow "ca_path",strRow "client_cert",strRow "private_key",
    strRow "private_key_passwd",strRow "dh_file",strRow "subject_match",
    strRow "altsubject_match",strRow "domain_suffix_match",strRow "domain_match",
    strRow "ca_cert2",strRow "ca_path2",strRow "client_cert2",strRow "private_key2",
    strRow "private_key2_passwd",strRow "dh_file2",strRow "subject_match2",
    strRow "altsubject_match2",strRow "domain_suffix_match2",strRow "domain_match2",
    strRow "phase1",strRow "phase2",strRow "pcsc",strRow "pin",strRow "engine_id",
    strRow "key_id",strRow "cert_id",strRow "ca_cert_id",strRow "pin2",strRow "engine2_id",
    strRow "key2_id",strRow "cert2_id",strRow "ca_cert2_id",intRow "engine",intRow "engine2",
    intRow "eapol_flags",intRow "sim_num",strRow "openssl_ciphers",intRow "erp",
    funcRow "wep_key0" (.wepKey 0),funcRow "wep_key1" (.wepKey 1),
    funcRow "wep_key2" (.wepKey 2),funcRow "wep_key3" (.wepKey 3),intRow "wep_tx_keyidx",
    intRow "priority",intRow "eap_workaround",strRow "pac_file",intRow "fragment_size",
    intRow "ocsp",intRangeRow "mode" 0 4,intRangeRow "proactive_key_caching" 0 1,
    intRangeRow "disabled" 0 2,strRow "id_str",intRangeRow "peerkey" 0 1,
    intRangeRow "mixed_cell" 0 1,intRangeRow "frequency" 0 65000,intRangeRow "fixed_freq" 0 1,
    intRow "wpa_ptk_rekey",intRow "group_rekey",strRow "bgscan",
    intRangeRow "ignore_broadcast_ssid" 0 2,intRow "ap_max_inactivity",intRow "dtim_period",
    intRow "beacon_int",intRangeRow "mac_addr" 0 2,intRangeRow "pbss" 0 2,
    intRangeRow "wps_disabled" 0 1]

end Table

section Rows

/-- What a row stores, if `r` is what its parser returns. -/
def NetworkBlock.setStr (n : NetworkBlock) (name : String) (r : ℤ × Option Bytes) :
    ℤ × NetworkBlock := (r.1,{ n with strs := Function.update n.strs name r.2 })

def NetworkBlock.setInt (n : NetworkBlock) (name : String) (r : ℤ × ℤ) : ℤ × NetworkBlock :=
  (r.1,{ n with ints := Function.update n.ints name r.2 })

def FuncField.parser (f : FuncField) (n : NetworkBlock) (value : Bytes) : ℤ × NetworkBlock :=
  match f with
  | .bssid =>
    let r := wpaConfigParseBssid n.bssid value
    (r.1,{ n with bssid := r.2 })
  | .bssidBlacklist =>
    let r := wpaConfigParseBssidBlacklist n.bssidBlacklist value
    (r.1,{ n with bssidBlacklist := r.2 })
  | .bssidWhitelist =>
    let r := wpaConfigParseBssidWhitelist n.bssidWhitelist value
    (r.1,{ n with bssidWhitelist := r.2 })
  | .psk =>
    let r := wpaConfigParsePsk n.psk value
    (r.1,{ n with psk := r.2 })
  | .proto =>
    let r := wpaConfigParseProto n.proto value
    (r.1,{ n with proto := r.2 })
  | .keyMgmt =>
    let r := wpaConfigParseKeyMgmt n.keyMgmt value
    (r.1,{ n with keyMgmt := r.2 })
  | .pairwise =>
    let r := wpaConfigParsePairwise n.pairwiseCipher value
    (r.1,{ n with pairwiseCipher := r.2 })
  | .group =>
    let r := wpaConfigParseGroup n.groupCipher value
    (r.1,{ n with groupCipher := r.2 })
  | .authAlg =>
    let r := wpaConfigParseAuthAlg n.authAlg value
    (r.1,{ n with authAlg := r.2 })
  | .scanFreq =>
    let r := wpaConfigParseScanFreq n.scanFreq value
    (r.1,{ n with scanFreq := r.2 })
  | .freqList =>
    let r := wpaConfigParseFreqList n.freqList value
    (r.1,{ n with freqList := r.2 })
  | .eap =>
    let r := wpaConfigParseEap n.eapMethods value
    (r.1,{ n with eapMethods := r.2 })
  | .password =>
    let r := wpaConfigParsePassword n.password value
    (r.1,{ n with password := r.2 })
  | .wepKey idx =>
    let r := wpaConfigParseWepKey (n.wepKey idx) value
    (r.1,{ n with wepKey := Function.update n.wepKey idx r.2 })

def FuncField.writer (f : FuncField) (n : NetworkBlock) : Except ConfigFault (Option Bytes) :=
  match f with
  | .bssid => .ok (wpaConfigWriteBssid n.bssid)
  | .bssidBlacklist => .ok (wpaConfigWriteAddrList n.bssidBlacklist)
  | .bssidWhitelist => .ok (wpaConfigWriteAddrList n.bssidWhitelist)
  | .psk => .ok (wpaConfigWritePsk n.psk)
  | .proto => .ok (wpaConfigWriteProto n.proto)
  | .keyMgmt => .ok (wpaConfigWriteKeyMgmt n.keyMgmt)
  | .pairwise => .ok (wpaConfigWriteCipher n.pairwiseCipher)
  | .group => .ok (wpaConfigWriteCipher n.groupCipher)
  | .authAlg => .ok (wpaConfigWriteAuthAlg n.authAlg)
  | .scanFreq => .ok (wpaConfigWriteFreqs n.scanFreq)
  | .freqList => .ok (wpaConfigWriteFreqs n.freqList)
  | .eap => .ok (wpaConfigWriteEap n.eapMethods)
  | .password => wpaConfigWritePassword n.password
  | .wepKey idx => wpaConfigWriteWepKey (n.wepKey idx)

def ParseData.parser (d : ParseData) (n : NetworkBlock) (value : Bytes) : ℤ × NetworkBlock :=
  match d.kind with
  | .str hasLen minLen maxLen =>
    n.setStr d.name (wpaConfigParseStrField hasLen minLen maxLen (n.strs d.name) value)
  | .int minValue maxValue =>
    n.setInt d.name (wpaConfigParseInt minValue maxValue (n.ints d.name) value)
  | .func f => f.parser n value

def ParseData.writer (d : ParseData) (n : NetworkBlock) : Except ConfigFault (Option Bytes) :=
  match d.kind with
  | .str _ _ _ => .ok ((n.strs d.name).map wpaConfigWriteString)
  | .int _ _ => .ok (some (decimal (n.ints d.name)))
  | .func f => f.writer n

end Rows

section ByName

def findField (var : Bytes) : Option ParseData := ssidFields.find? (ascii ·.name == var)

def wpaConfigSet (n : NetworkBlock) (var value : Bytes) : ℤ × NetworkBlock :=
  (findField var).elim (-1,n) fun d => d.parser n value

/-- A value with a line break is not returned. -/
def wpaConfigGet (n : NetworkBlock) (var : Bytes) : Except ConfigFault (Option Bytes) :=
  (findField var).elim (.ok none) fun d =>
    (d.writer n).map fun value => value.filter (!hasNewline ·)

end ByName

section Defaults

def wpaProtoDefault : ℕ := 2^0 ||| 2^1
def wpaKeyMgmtDefault : ℕ := 2^1 ||| 2^0
def wpaCipherDefault : ℕ := 2^4 ||| 2^3

/-- The numbers that `wpa_config_set_network_defaults` sets. -/
def intDefaults : List (String × ℤ) :=
  [("bg_scan_period",-1),("eapol_flags",3),("eap_workaround",-1),("fragment_size",1398),
    ("sim_num",1),("proactive_key_caching",-1),("mac_addr",-1)]

/-- A network that is all zeros, after `wpa_config_set_network_defaults`. -/
def NetworkBlock.defaults : NetworkBlock where
  strs := fun _ => none
  ints := fun name => (intDefaults.lookup name).getD 0
  bssid := (List.replicate ethAlen 0,false)
  bssidBlacklist := []
  bssidWhitelist := []
  psk := ⟨none,List.replicate pmkLen 0,false⟩
  proto := wpaProtoDefault
  keyMgmt := wpaKeyMgmtDefault
  pairwiseCipher := wpaCipherDefault
  groupCipher := wpaCipherDefault
  authAlg := 0
  scanFreq := none
  freqList := none
  eapMethods := none
  password := (none,false)
  wepKey := fun _ => (List.replicate maxWepKeyLen 0,0)

/-- `wpa_supplicant_add_network`: a new network is disabled. -/
def NetworkBlock.added : NetworkBlock :=
  { NetworkBlock.defaults with
    ints := Function.update NetworkBlock.defaults.ints "disabled" 1 }

end Defaults

section Control

/-- The result of `pbkdf2_sha1` for a passphrase and an SSID. -/
abbrev Pbkdf2 := Bytes → Bytes → {psk : Bytes // psk.length = pmkLen}

/-- `wpa_config_update_psk` -/
def wpaConfigUpdatePsk (pbkdf2 : Pbkdf2) (n : NetworkBlock) : NetworkBlock :=
  { n with psk := { n.psk with
      psk := (pbkdf2 (n.psk.passphrase.getD []) ((n.strs "ssid").getD [])).1, pskSet := true } }

/-- `wpa_supplicant_ctrl_iface_update_network` on the network: what `SET_NETWORK` does. A result of 1
says that nothing changed. -/
def NetworkBlock.update (pbkdf2 : Pbkdf2) (n : NetworkBlock) (name value : Bytes) :
    ℤ × NetworkBlock :=
  let r := wpaConfigSet n name value
  if r.1 < 0 then (-1,r.2)
  else if r.1 = 1 then (0,r.2)
  else if name = ascii "psk" ∧ value.head? = some 34 ∧ (r.2.strs "ssid").getD [] ≠ [] ∨
      name = ascii "ssid" ∧ r.2.psk.passphrase ≠ none then (0,wpaConfigUpdatePsk pbkdf2 r.2)
  else (0,r.2)

/-- The network after some requests to set variables, accepted or not. -/
def NetworkBlock.updates (pbkdf2 : Pbkdf2) (n : NetworkBlock) (reqs : List (Bytes × Bytes)) :
    NetworkBlock :=
  reqs.foldl (fun n r => (n.update pbkdf2 r.1 r.2).2) n

/-- `wpa_supplicant_ctrl_iface_dup_network` on the two networks: what `DUP_NETWORK` does. -/
def NetworkBlock.dup (pbkdf2 : Pbkdf2) (src dst : NetworkBlock) (name : Bytes) :
    Except ConfigFault (ℤ × NetworkBlock) :=
  (wpaConfigGet src name).map fun value =>
    value.elim (-1,dst) fun value => dst.update pbkdf2 name value

end Control

end WpaCliWrapper
