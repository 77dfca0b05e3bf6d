import WpaCliWrapper.CText.Decimal
import WpaCliWrapper.Supplicant.Config

/-! The reply to `SCAN_RESULTS`: a header, and a line for each BSS as long as the lines fit the
buffer. -/
namespace WpaCliWrapper
open CText

/-- The build options of the daemon that the reply depends on. -/
inductive SupplicantOption
  | ieee80211r | ieee80211w | suiteB | suiteB192 | wps | hs20 | fst
  deriving DecidableEq

abbrev SupplicantConfig := SupplicantOption → Bool

inductive KeyMgmt
  | ieee8021x | psk | wpaNone | sae | ftIeee8021x | ftPsk | ftSae | ieee8021xSha256 | pskSha256
  | ieee8021xSuiteB | ieee8021xSuiteB192 | osen
  deriving DecidableEq

inductive Cipher
  | ccmp256 | gcmp256 | ccmp | gcmp | tkip | none
  deriving DecidableEq

/-- What `wpa_parse_wpa_ie` finds in an information element. -/
structure WpaIeData where
  keyMgmt : KeyMgmt → Bool
  pairwiseCipher : Cipher → Bool
  preauth : Bool

inductive WpsState
  | pbc | auth | pin | other
  deriving DecidableEq

/-- An entry of the list of BSSs. An information element is there or not, and can be parsed or
not. -/
structure Bss where
  bssid : Bytes
  freq : ℤ
  level : ℤ
  caps : ℕ
  ssid : Bytes
  wpa : Option (Option WpaIeData)
  rsn : Option (Option WpaIeData)
  osen : Option (Option WpaIeData)
  wps : Option WpsState
  mesh : Bool
  p2p : Bool
  hs20 : Bool
  multiBand : Bool
  bssid_length : bssid.length = 6
  freq_int : -2^31 ≤ freq ∧ freq < 2^31
  level_int : -2^31 ≤ level ∧ level < 2^31
  ssid_length : ssid.length ≤ ssidMaxLen

section Writers
variable (buflen : ℕ)

/-- `os_snprintf` behind a text: the piece and a terminator fit the buffer, or the text stays. -/
def put (txt piece : Bytes) : Except Bytes Bytes :=
  if txt.length+piece.length < buflen then .ok (txt ++ piece) else .error txt

def putIf (b : Bool) (piece txt : Bytes) : Except Bytes Bytes :=
  if b then put buflen txt piece else .ok txt

/-- The text at which a function returns that gives up at the first piece that does not fit. -/
def soFar : Except Bytes Bytes → Bytes
  | .ok txt => txt
  | .error txt => txt

/-- Names behind a start, with a plus sign between them. -/
def putListed (start : Bytes) (names : List Bytes) (txt : Bytes) : Except Bytes Bytes :=
  names.foldlM (fun txt name =>
    put buflen txt (if txt.length = start.length then name else 43 :: name)) txt

def cipherTexts : List (Cipher × Bytes) :=
  [(.ccmp256,ascii "CCMP-256"),(.gcmp256,ascii "GCMP-256"),(.ccmp,ascii "CCMP"),
   (.gcmp,ascii "GCMP"),(.tkip,ascii "TKIP"),(.none,ascii "NONE")]

/-- `wpa_write_ciphers` writes all of the names or none. -/
def wpaWriteCiphers (start : Bytes) (ciphers : Cipher → Bool) : Option Bytes :=
  (putListed buflen start ((cipherTexts.filter (ciphers ·.1)).map Prod.snd) start).toOption

def cipherTxt (txt : Bytes) (ciphers : Cipher → Bool) : Bytes := soFar do
  let txt ← put buflen txt [45]
  return (wpaWriteCiphers buflen txt ciphers).getD txt

def keyMgmtTexts : List (KeyMgmt × Option SupplicantOption × Bytes) :=
  [(.ieee8021x,none,ascii "EAP"),(.psk,none,ascii "PSK"),(.wpaNone,none,ascii "None"),
   (.sae,none,ascii "SAE"),(.ftIeee8021x,some .ieee80211r,ascii "FT/EAP"),
   (.ftPsk,some .ieee80211r,ascii "FT/PSK"),(.ftSae,some .ieee80211r,ascii "FT/SAE"),
   (.ieee8021xSha256,some .ieee80211w,ascii "EAP-SHA256"),
   (.pskSha256,some .ieee80211w,ascii "PSK-SHA256"),
   (.ieee8021xSuiteB,some .suiteB,ascii "EAP-SUITE-B"),
   (.ieee8021xSuiteB192,some .suiteB192,ascii "EAP-SUITE-B-192"),(.osen,none,ascii "OSEN")]

variable (cfg : SupplicantConfig)

def keyMgmtNames (keyMgmt : KeyMgmt → Bool) : List Bytes :=
  (keyMgmtTexts.filter fun t => keyMgmt t.1 && t.2.1.all cfg).map (·.2.2)

/-- What `wpa_supplicant_ie_txt` writes behind the name of the element. -/
def ieBodyTxt (ie : Option WpaIeData) (txt : Bytes) : Except Bytes Bytes :=
  match ie with
  | none => put buflen txt (ascii "?]")
  | some data => do
    let txt ← putListed buflen txt (keyMgmtNames cfg data.keyMgmt) txt
    let txt := cipherTxt buflen txt data.pairwiseCipher
    let txt ← putIf buflen data.preauth (ascii "-preauth") txt
    put buflen txt [93]

def ieTxt (proto : Bytes) (ie : Option WpaIeData) (txt : Bytes) : Bytes := soFar do
  let txt ← put buflen txt (91 :: proto ++ [45])
  ieBodyTxt buflen cfg ie txt

/-- The text of an information element that may be missing. -/
def ieTxtOption (proto : Bytes) (ie : Option (Option WpaIeData)) (txt : Bytes) : Bytes :=
  ie.elim txt fun ie => ieTxt buflen cfg proto ie txt

def wpsText : WpsState → Bytes
  | .pbc => ascii "[WPS-PBC]"
  | .auth => ascii "[WPS-AUTH]"
  | .pin => ascii "[WPS-PIN]"
  | .other => ascii "[WPS]"

def wpsIeTxt (wps : Option WpsState) (txt : Bytes) : Bytes :=
  if cfg .wps then wps.elim txt fun state => soFar (put buflen txt (wpsText state)) else txt

end Writers

/-- `MACSTR` -/
def macStr (addr : Bytes) : Bytes :=
  [58].intercalate (addr.map fun c => [hexDigit (c/16),hexDigit (c%16)])

namespace Bss

def capEss : ℕ := 0x0001
def capIbss : ℕ := 0x0002
def capPrivacy : ℕ := 0x0010
def capDmgMask : ℕ := 0x0003
def capDmgIbss : ℕ := 0x0001
def capDmgPbss : ℕ := 0x0002
def capDmgAp : ℕ := 0x0003

def hasCap (bss : Bss) (cap : ℕ) : Bool := bss.caps &&& cap != 0

def isDmg (bss : Bss) : Bool := bss.freq > 45000

def dmgText (bss : Bss) : Bytes :=
  if bss.caps &&& capDmgMask = capDmgIbss then ascii "[IBSS]"
  else if bss.caps &&& capDmgMask = capDmgAp then ascii "[ESS]"
  else if bss.caps &&& capDmgMask = capDmgPbss then ascii "[PBSS]"
  else []

def macTxt (bss : Bss) : Bytes := macStr bss.bssid

/-- `wpa_ssid_txt` -/
def ssidTxt (bss : Bss) : Bytes := printfEncode (4*ssidMaxLen+1) bss.ssid

def headTxt (bss : Bss) : Bytes :=
  bss.macTxt ++ 9 :: (decimal bss.freq ++ 9 :: (decimal bss.level ++ [9]))

def capsTxt (buflen : ℕ) (bss : Bss) (txt : Bytes) : Except Bytes Bytes :=
  if bss.isDmg then do
    let txt ← put buflen txt (ascii "[DMG]")
    put buflen txt bss.dmgText
  else do
    let txt ← putIf buflen (bss.hasCap capIbss) (ascii "[IBSS]") txt
    putIf buflen (bss.hasCap capEss) (ascii "[ESS]") txt

/-- The flags, behind the text that comes before them. -/
def flagsTxt (buflen : ℕ) (cfg : SupplicantConfig) (bss : Bss) (txt : Bytes) :
    Except Bytes Bytes := do
  let txt := ieTxtOption buflen cfg (ascii "WPA") bss.wpa txt
  let txt := ieTxtOption buflen cfg (if bss.mesh then ascii "RSN" else ascii "WPA2") bss.rsn txt
  let txt := ieTxtOption buflen cfg (ascii "OSEN") bss.osen txt
  let txt := wpsIeTxt buflen cfg bss.wps txt
  let txt ← putIf buflen (bss.wpa.isNone && bss.rsn.isNone && bss.osen.isNone &&
    bss.hasCap capPrivacy) (ascii "[WEP]") txt
  let txt ← putIf buflen bss.mesh (ascii "[MESH]") txt
  let txt ← bss.capsTxt buflen txt
  let txt ← putIf buflen bss.p2p (ascii "[P2P]") txt
  let txt ← putIf buflen (cfg .hs20 && bss.hs20 && bss.rsn.isSome) (ascii "[HS20]") txt
  putIf buflen (cfg .fst && bss.multiBand) (ascii "[FST]") txt

end Bss

def p2pWildcardSsid : Bytes := ascii "DIRECT-"

section Results
variable (cfg : SupplicantConfig)

/-- The line of a BSS in a buffer of some bytes; P2P listen discovery results have none. -/
def ctrlIfaceScanResult (bss : Bss) (buflen : ℕ) : Option Bytes :=
  if bss.p2p && bss.ssid == p2pWildcardSsid then some []
  else Except.toOption do
    let txt ← put buflen [] bss.headTxt
    let txt ← bss.flagsTxt buflen cfg txt
    let txt ← put buflen txt (9 :: bss.ssidTxt)
    put buflen txt [10]

def scanHeader : Bytes := ascii "bssid / frequency / signal level / flags / ssid\n"

def scanResultsLoop (size : ℕ) : List Bss → Bytes → Bytes
  | [], txt => txt
  | bss :: rest, txt =>
    match ctrlIfaceScanResult cfg bss (size-txt.length) with
    | none => txt
    | some line =>
      if size-txt.length ≤ line.length then txt else scanResultsLoop size rest (txt ++ line)

def ctrlIfaceScanResults (size : ℕ) (bsss : List Bss) : Bytes :=
  match put size [] scanHeader with
  | .error _ => []
  | .ok txt => scanResultsLoop cfg size bsss txt

end Results

/-- No character that ends a text, a line or a field. -/
def plain (txt : Bytes) : Bool := txt.all fun c => c != 0 && c != 9 && c != 10

section Plain

theorem plain_iff {txt : Bytes} : plain txt = true ↔ ∀ c ∈ txt, c ≠ 0 ∧ c ≠ 9 ∧ c ≠ 10 := by
  simp [plain,and_assoc]

theorem plain_clean {txt : Bytes} (h : plain txt = true) : ∀ c ∈ txt, c ≠ 0 ∧ c ≠ 10 :=
  fun c hc => ⟨(plain_iff.mp h c hc).1,(plain_iff.mp h c hc).2.2⟩

theorem plain_append {s t : Bytes} : plain (s ++ t) = (plain s && plain t) := List.all_append

theorem hexDigit_plain {d : UInt8} (h : d < 16) : plain [hexDigit d] = true := by
  have hall : ∀ n < 16, plain [hexDigit (UInt8.ofNat n)] = true := by decide
  have hd := hall d.toNat h
  rwa [UInt8.ofNat_toNat] at hd

theorem hexDigits_plain (c : UInt8) : plain [hexDigit (c/16),hexDigit (c%16)] = true := by
  obtain ⟨hdiv,hmod,-⟩ := hex_digits c
  have happ := plain_append (s := [hexDigit (c/16)]) (t := [hexDigit (c%16)])
  rwa [hexDigit_plain hdiv,hexDigit_plain hmod] at happ

theorem singleton_plain {c : UInt8} (h : 32 ≤ c) : plain [c] = true := by
  refine plain_iff.mpr fun d hd => ?_
  rw [List.mem_singleton.mp hd]
  refine ⟨?_,?_,?_⟩
  all_goals
    rintro rfl
    exact absurd h (by decide)

/-- What is written for a byte breaks no line and no field. -/
theorem encodeByte_plain (c : UInt8) : plain (encodeByte c) = true := by
  rcases encodeByte_cases c with ⟨e,heq,he,-⟩ | ⟨heq,-,hc⟩ | heq
  · have happ := plain_append (s := [92]) (t := [e])
    rw [singleton_plain (UInt8.le_of_lt he)] at happ
    rw [heq]
    exact happ
  · rw [heq]
    exact singleton_plain hc
  · have happ := plain_append (s := [92,120]) (t := [hexDigit (c/16),hexDigit (c%16)])
    rw [hexDigits_plain] at happ
    rw [heq]
    exact happ

theorem decimal_plain (z : ℤ) : plain (decimal z) = true := by
  refine plain_iff.mpr fun c hc => ?_
  rcases decimal_mem hc with rfl | hdigit
  · decide
  · refine ⟨?_,?_,?_⟩
    all_goals
      intro h
      rw [h] at hdigit
      exact absurd hdigit (by decide)

theorem macStr_plain (addr : Bytes) : plain (macStr addr) = true := by
  rw [macStr]
  induction addr with
  | nil => rfl
  | cons c rest ih =>
    cases rest with
    | nil => simpa using hexDigits_plain c
    | cons d rest =>
      rw [List.map_cons] at ih
      rw [List.map_cons,List.map_cons,List.intercalate_cons_cons,plain_append,plain_append,
        hexDigits_plain,ih]
      rfl

theorem macStr_length {addr : Bytes} (h : addr ≠ []) : (macStr addr).length+1 = 3*addr.length := by
  rw [macStr]
  induction addr with
  | nil => exact absurd rfl h
  | cons a rest ih =>
    cases rest with
    | nil => rfl
    | cons b rest =>
      have ih := ih (List.cons_ne_nil b rest)
      rw [List.map_cons] at ih
      rw [List.map_cons,List.map_cons,List.intercalate_cons_cons,List.length_append,
        List.length_append]
      simp only [List.length_cons,List.length_nil] at ih ⊢
      omega

theorem macTxt_plain (bss : Bss) : plain bss.macTxt = true := macStr_plain bss.bssid

theorem encodeBytes_plain (maxlen : ℕ) {txt : Bytes} (h : plain txt = true) (data : Bytes) :
    plain (encodeBytes maxlen txt data) = true := by
  induction data generalizing txt with
  | nil => exact h
  | cons c data ih =>
    rw [encodeBytes]
    split
    · exact h
    · apply ih
      rw [plain_append,h,encodeByte_plain]
      rfl

/-- Whatever the bytes are, their text breaks no line and no field. -/
theorem printfEncode_plain (maxlen : ℕ) (data : Bytes) : plain (printfEncode maxlen data) = true :=
  encodeBytes_plain maxlen rfl data

theorem ssidTxt_eq (bss : Bss) : bss.ssidTxt = bss.ssid.flatMap encodeByte := by
  have hlen := bss.ssid_length
  rw [Bss.ssidTxt,printfEncode,encodeBytes_eq,List.nil_append]
  rw [List.length_nil]
  omega

theorem ssidTxt_plain (bss : Bss) : plain bss.ssidTxt = true := printfEncode_plain _ bss.ssid

end Plain

/-- A text got more of plain characters, whether all of it fitted or not. -/
def Grows (txt : Bytes) (r : Except Bytes Bytes) : Prop :=
  ∃ s, soFar r = txt ++ s ∧ plain s = true

section Grows
variable {buflen : ℕ} {txt : Bytes}

theorem grows_ok (txt : Bytes) : Grows txt (.ok txt) := ⟨[],(List.append_nil txt).symm,rfl⟩

theorem grows_put {piece : Bytes} (h : plain piece = true) (txt : Bytes) :
    Grows txt (put buflen txt piece) := by
  unfold put
  split
  · exact ⟨piece,rfl,h⟩
  · exact ⟨[],(List.append_nil txt).symm,rfl⟩

theorem grows_putIf {piece : Bytes} (h : plain piece = true) (b : Bool) (txt : Bytes) :
    Grows txt (putIf buflen b piece txt) := by
  unfold putIf
  split
  · exact grows_put h txt
  · exact grows_ok txt

theorem Grows.trans {s : Bytes} {r : Except Bytes Bytes} (hs : Grows txt (.ok s)) (h : Grows s r) :
    Grows txt r := by
  obtain ⟨a,ha,hpa⟩ := hs
  obtain ⟨b,hb,hpb⟩ := h
  change s = txt ++ a at ha
  refine ⟨a ++ b,by rw [hb,ha,List.append_assoc],?_⟩
  rw [plain_append,hpa,hpb]
  rfl

theorem Grows.bind {x : Except Bytes Bytes} {f : Bytes → Except Bytes Bytes} (h : Grows txt x)
    (hf : ∀ s, Grows s (f s)) : Grows txt (x >>= f) := by
  cases x with
  | error s => exact h
  | ok s => exact Grows.trans h (hf s)

theorem Grows.soFar {r : Except Bytes Bytes} (h : Grows txt r) : Grows txt (.ok (soFar r)) := h

theorem grows_putListed {names : List Bytes} (h : ∀ name ∈ names, plain name = true)
    (start txt : Bytes) : Grows txt (putListed buflen start names txt) := by
  unfold putListed
  induction names generalizing txt with
  | nil => exact grows_ok txt
  | cons name names ih =>
    rw [List.foldlM_cons]
    refine Grows.bind (grows_put ?_ txt) fun s => ih (fun n hn => h n (List.mem_cons_of_mem _ hn)) s
    have hname := h name List.mem_cons_self
    split
    · exact hname
    · rw [← List.singleton_append,plain_append,hname]
      rfl

theorem keyMgmtNames_plain (cfg : SupplicantConfig) (keyMgmt : KeyMgmt → Bool) :
    ∀ name ∈ keyMgmtNames cfg keyMgmt, plain name = true := by
  have hall : keyMgmtTexts.all (plain ·.2.2) = true := by decide
  intro name hname
  obtain ⟨t,ht,rfl⟩ := List.mem_map.mp hname
  exact List.all_eq_true.mp hall t (List.mem_of_mem_filter ht)

theorem grows_cipherTxt (buflen : ℕ) (txt : Bytes) (ciphers : Cipher → Bool) :
    Grows txt (.ok (cipherTxt buflen txt ciphers)) := by
  refine Grows.soFar (Grows.bind (grows_put rfl txt) fun s => ?_)
  have hall : cipherTexts.all (plain ·.2) = true := by decide
  have hnames : ∀ name ∈ (cipherTexts.filter (ciphers ·.1)).map Prod.snd, plain name = true := by
    intro name hname
    obtain ⟨t,ht,rfl⟩ := List.mem_map.mp hname
    exact List.all_eq_true.mp hall t (List.mem_of_mem_filter ht)
  have hgrows : Grows s (putListed buflen s _ s) := grows_putListed hnames s s
  rw [wpaWriteCiphers]
  cases hput : putListed buflen s ((cipherTexts.filter (ciphers ·.1)).map Prod.snd) s with
  | error t => exact grows_ok s
  | ok t =>
    rw [hput] at hgrows
    exact hgrows

theorem grows_ieBodyTxt (buflen : ℕ) (cfg : SupplicantConfig) (ie : Option WpaIeData)
    (txt : Bytes) : Grows txt (ieBodyTxt buflen cfg ie txt) := by
  cases ie with
  | none => exact grows_put rfl txt
  | some data =>
    refine Grows.bind (grows_putListed (keyMgmtNames_plain cfg data.keyMgmt) txt txt) fun s => ?_
    exact Grows.trans (grows_cipherTxt buflen s data.pairwiseCipher) (Grows.bind
      (grows_putIf rfl data.preauth _) fun s₁ => grows_put rfl s₁)

theorem grows_ieTxtOption (buflen : ℕ) (cfg : SupplicantConfig) {proto : Bytes} (h : plain proto = true)
    (ie : Option (Option WpaIeData)) (txt : Bytes) :
    Grows txt (.ok (ieTxtOption buflen cfg proto ie txt)) := by
  cases ie with
  | none => exact grows_ok txt
  | some ie =>
    have hstart : plain (91 :: proto ++ [45]) = true := by
      rw [← List.singleton_append,plain_append,plain_append,h]
      rfl
    exact Grows.soFar (Grows.bind (grows_put hstart txt) fun s => grows_ieBodyTxt buflen cfg ie s)

theorem grows_wpsIeTxt (buflen : ℕ) (cfg : SupplicantConfig) (wps : Option WpsState) (txt : Bytes) :
    Grows txt (.ok (wpsIeTxt buflen cfg wps txt)) := by
  unfold wpsIeTxt
  split
  · cases wps with
    | none => exact grows_ok txt
    | some state =>
      have hplain : plain (wpsText state) = true := by cases state <;> rfl
      exact Grows.soFar (grows_put hplain txt)
  · exact grows_ok txt

theorem dmgText_plain (bss : Bss) : plain bss.dmgText = true := by
  unfold Bss.dmgText
  repeat' split
  all_goals rfl

theorem grows_capsTxt (bss : Bss) (txt : Bytes) : Grows txt (bss.capsTxt buflen txt) := by
  have hdmg := dmgText_plain bss
  unfold Bss.capsTxt
  split
  · exact Grows.bind (grows_put rfl txt) fun s => grows_put hdmg s
  · exact Grows.bind (grows_putIf rfl _ txt) fun s => grows_putIf rfl _ s

theorem grows_foldlM {writers : List (Bytes → Except Bytes Bytes)}
    (h : ∀ w ∈ writers, ∀ s, Grows s (w s)) (txt : Bytes) :
    Grows txt (writers.foldlM (fun txt w => w txt) txt) := by
  induction writers generalizing txt with
  | nil => exact grows_ok txt
  | cons w writers ih =>
    rw [List.foldlM_cons]
    exact Grows.bind (h w List.mem_cons_self txt) (ih fun v hv => h v (List.mem_cons_of_mem _ hv))

/-- The parts of the flags, in order. -/
def Bss.flagWriters (buflen : ℕ) (cfg : SupplicantConfig) (bss : Bss) :
    List (Bytes → Except Bytes Bytes) :=
  [fun txt => .ok (ieTxtOption buflen cfg (ascii "WPA") bss.wpa txt),
   fun txt => .ok
    (ieTxtOption buflen cfg (if bss.mesh then ascii "RSN" else ascii "WPA2") bss.rsn txt),
   fun txt => .ok (ieTxtOption buflen cfg (ascii "OSEN") bss.osen txt),
   fun txt => .ok (wpsIeTxt buflen cfg bss.wps txt),
   putIf buflen (bss.wpa.isNone && bss.rsn.isNone && bss.osen.isNone && bss.hasCap Bss.capPrivacy)
    (ascii "[WEP]"),
   putIf buflen bss.mesh (ascii "[MESH]"),
   bss.capsTxt buflen,
   putIf buflen bss.p2p (ascii "[P2P]"),
   putIf buflen (cfg .hs20 && bss.hs20 && bss.rsn.isSome) (ascii "[HS20]"),
   putIf buflen (cfg .fst && bss.multiBand) (ascii "[FST]")]

theorem flagsTxt_eq (cfg : SupplicantConfig) (bss : Bss) (txt : Bytes) :
    bss.flagsTxt buflen cfg txt =
      (bss.flagWriters buflen cfg).foldlM (fun txt w => w txt) txt := by
  simp only [Bss.flagWriters,List.foldlM_cons,List.foldlM_nil,bind_pure]
  rfl

theorem grows_flagWriters (cfg : SupplicantConfig) (bss : Bss) :
    ∀ w ∈ bss.flagWriters buflen cfg, ∀ s, Grows s (w s) := by
  have hrsn : plain (if bss.mesh then ascii "RSN" else ascii "WPA2") = true := by split <;> rfl
  have hwpa : plain (ascii "WPA") = true := rfl
  have hosen : plain (ascii "OSEN") = true := rfl
  simp only [Bss.flagWriters,List.forall_mem_cons]
  refine ⟨?_,?_,?_,?_,?_,?_,?_,?_,?_,?_,fun w hw => by cases hw⟩
  · exact grows_ieTxtOption buflen cfg hwpa bss.wpa
  · exact grows_ieTxtOption buflen cfg hrsn bss.rsn
  · exact grows_ieTxtOption buflen cfg hosen bss.osen
  · exact grows_wpsIeTxt buflen cfg bss.wps
  · exact grows_putIf rfl _
  · exact grows_putIf rfl _
  · exact grows_capsTxt bss
  · exact grows_putIf rfl _
  · exact grows_putIf rfl _
  · exact grows_putIf rfl _

/-- The flags are plain, however many of them fit. -/
theorem grows_flagsTxt (buflen : ℕ) (cfg : SupplicantConfig) (bss : Bss) (txt : Bytes) :
    Grows txt (bss.flagsTxt buflen cfg txt) := by
  rw [flagsTxt_eq]
  exact grows_foldlM (grows_flagWriters cfg bss) txt

end Grows

/-- A piece fits behind the head of the line. -/
def Bss.fits (bss : Bss) (buflen : ℕ) (piece : Bytes) : Bool :=
  bss.headTxt.length+piece.length < buflen

/-- A flag of the BSS has a name, and the name of an information element fits the buffer. -/
def Bss.hasFlags (cfg : SupplicantConfig) (buflen : ℕ) (bss : Bss) : Bool :=
  bss.wpa.isSome && bss.fits buflen (ascii "[WPA-") ||
  bss.rsn.isSome && bss.fits buflen (if bss.mesh then ascii "[RSN-" else ascii "[WPA2-") ||
  bss.osen.isSome && bss.fits buflen (ascii "[OSEN-") ||
  cfg .wps && bss.wps.any (fun state => bss.fits buflen (wpsText state)) ||
  bss.wpa.isNone && bss.rsn.isNone && bss.osen.isNone && bss.hasCap Bss.capPrivacy ||
  bss.mesh || bss.isDmg || bss.hasCap Bss.capIbss || bss.hasCap Bss.capEss || bss.p2p ||
  cfg .hs20 && bss.hs20 && bss.rsn.isSome || cfg .fst && bss.multiBand

section Flags
variable {buflen : ℕ} {txt : Bytes}

/-- Two writers leave a text alone if each of them does. -/
theorem bind_stays_iff {x : Except Bytes Bytes} {f : Bytes → Except Bytes Bytes}
    (h : Grows txt x) (hf : ∀ s, Grows s (f s)) :
    x >>= f = .ok txt ↔ x = .ok txt ∧ f txt = .ok txt := by
  constructor
  · intro hstays
    cases x with
    | error s => cases hstays
    | ok s =>
      obtain ⟨a,ha,-⟩ := h
      obtain ⟨b,hb,-⟩ := hf s
      change s = txt ++ a at ha
      change f s = .ok txt at hstays
      rw [hstays,ha,List.append_assoc] at hb
      have hnil : a ++ b = [] := List.self_eq_append_right.mp hb
      rw [(List.append_eq_nil_iff.mp hnil).1,List.append_nil] at ha
      rw [ha] at hstays ⊢
      exact ⟨rfl,hstays⟩
  · rintro ⟨rfl,hstays⟩
    exact hstays

theorem foldlM_stays_iff {writers : List (Bytes → Except Bytes Bytes)}
    (h : ∀ w ∈ writers, ∀ s, Grows s (w s)) :
    writers.foldlM (fun txt w => w txt) txt = .ok txt ↔ ∀ w ∈ writers, w txt = .ok txt := by
  induction writers with
  | nil => exact iff_of_true rfl fun w hw => by cases hw
  | cons w writers ih =>
    have hrest : ∀ v ∈ writers, ∀ s, Grows s (v s) := fun v hv => h v (List.mem_cons_of_mem _ hv)
    rw [List.foldlM_cons,bind_stays_iff (h w List.mem_cons_self txt) (grows_foldlM hrest),ih hrest,
      List.forall_mem_cons]

theorem putIf_stays_iff {b : Bool} {piece : Bytes} (h : piece ≠ []) :
    putIf buflen b piece txt = .ok txt ↔ b = false := by
  cases b with
  | false => exact iff_of_true rfl rfl
  | true =>
    refine iff_of_false (fun hstays => ?_) (by decide)
    have hput : put buflen txt piece = .ok txt := hstays
    unfold put at hput
    split at hput
    · exact h (List.append_right_eq_self.mp (Except.ok.inj hput))
    · cases hput

/-- A writer that gives up at its first piece leaves the text alone. -/
theorem soFar_stays_iff {piece : Bytes} {f : Bytes → Except Bytes Bytes} (h : piece ≠ [])
    (hf : ∀ s, Grows s (f s)) :
    soFar (put buflen txt piece >>= f) = txt ↔ ¬ txt.length+piece.length < buflen := by
  unfold put
  split
  · rename_i hfits
    refine iff_of_false (fun hstays => ?_) (not_not_intro hfits)
    obtain ⟨s,hs,-⟩ := hf (txt ++ piece)
    change soFar (f (txt ++ piece)) = txt at hstays
    rw [hstays,List.append_assoc] at hs
    exact h (List.append_eq_nil_iff.mp (List.self_eq_append_right.mp hs)).1
  · rename_i hfits
    exact iff_of_true rfl hfits

variable {cfg : SupplicantConfig} {bss : Bss}

theorem ieTxtOption_stays_iff {proto : Bytes} {ie : Option (Option WpaIeData)} :
    ieTxtOption buflen cfg proto ie bss.headTxt = bss.headTxt ↔
      (ie.isSome && bss.fits buflen (91 :: proto ++ [45])) = false := by
  cases ie with
  | none => exact iff_of_true rfl rfl
  | some ie =>
    have hne : 91 :: proto ++ [45] ≠ [] := by simp
    have hstays : ieTxt buflen cfg proto ie bss.headTxt = bss.headTxt ↔ _ :=
      soFar_stays_iff hne (grows_ieBodyTxt buflen cfg ie)
    rw [Option.isSome_some,Bool.true_and,Bss.fits,decide_eq_false_iff_not]
    exact hstays

theorem wpsIeTxt_stays_iff {wps : Option WpsState} :
    wpsIeTxt buflen cfg wps bss.headTxt = bss.headTxt ↔
      (cfg .wps && wps.any fun state => bss.fits buflen (wpsText state)) = false := by
  unfold wpsIeTxt
  cases cfg .wps with
  | false => exact iff_of_true rfl rfl
  | true =>
    cases wps with
    | none => exact iff_of_true rfl rfl
    | some state =>
      have hne : wpsText state ≠ [] := by cases state <;> decide
      have hstays : soFar (put buflen bss.headTxt (wpsText state) >>= .ok) = bss.headTxt ↔ _ :=
        soFar_stays_iff hne grows_ok
      rw [Option.any_some,Bool.true_and,Bss.fits,decide_eq_false_iff_not,← hstays]
      change soFar (put buflen bss.headTxt (wpsText state)) = bss.headTxt ↔ _
      cases put buflen bss.headTxt (wpsText state) <;> rfl

theorem capsTxt_stays_iff : bss.capsTxt buflen txt = .ok txt ↔
    bss.isDmg = false ∧ bss.hasCap Bss.capIbss = false ∧ bss.hasCap Bss.capEss = false := by
  unfold Bss.capsTxt
  split
  · rename_i hdmg
    refine iff_of_false (fun hstays => ?_) fun hnone => by rw [hdmg] at hnone; cases hnone.1
    have hdmgText : plain bss.dmgText = true := dmgText_plain bss
    have hput := ((bind_stays_iff (grows_put rfl txt) fun s => grows_put hdmgText s).mp hstays).1
    exact absurd ((putIf_stays_iff (b := true) (by decide)).mp hput) (by decide)
  · rename_i hdmg
    rw [bind_stays_iff (grows_putIf rfl _ txt) fun s => grows_putIf rfl _ s,
      putIf_stays_iff (by decide),putIf_stays_iff (by decide)]
    exact ⟨fun h => ⟨Bool.eq_false_of_not_eq_true hdmg,h⟩,fun h => h.2⟩

/-- All of the flags are written and there are none. -/
theorem flagsTxt_stays_iff : bss.flagsTxt buflen cfg bss.headTxt = .ok bss.headTxt ↔
    bss.hasFlags cfg buflen = false := by
  have hproto : 91 :: (if bss.mesh then ascii "RSN" else ascii "WPA2") ++ [45] =
      if bss.mesh then ascii "[RSN-" else ascii "[WPA2-" := by split <;> rfl
  have hnames : ascii "[WEP]" ≠ [] ∧ ascii "[MESH]" ≠ [] ∧ ascii "[P2P]" ≠ [] ∧
      ascii "[HS20]" ≠ [] ∧ ascii "[FST]" ≠ [] := by decide
  obtain ⟨hwep,hmesh,hp2p,hhs20,hfst⟩ := hnames
  rw [flagsTxt_eq,foldlM_stays_iff (grows_flagWriters cfg bss)]
  simp only [Bss.flagWriters,List.forall_mem_cons,Except.ok.injEq,ieTxtOption_stays_iff,
    wpsIeTxt_stays_iff,putIf_stays_iff hwep,putIf_stays_iff hmesh,putIf_stays_iff hp2p,
    putIf_stays_iff hhs20,putIf_stays_iff hfst,capsTxt_stays_iff,hproto]
  simp only [Bss.hasFlags,Bool.or_eq_false_iff,and_assoc]
  constructor
  · rintro ⟨h₁,h₂,h₃,h₄,h₅,h₆,h₇,h₈,h₉,h₁₀,h₁₁,h₁₂,-⟩
    exact ⟨h₁,h₂,h₃,h₄,h₅,h₆,h₇,h₈,h₉,h₁₀,h₁₁,h₁₂⟩
  · rintro ⟨h₁,h₂,h₃,h₄,h₅,h₆,h₇,h₈,h₉,h₁₀,h₁₁,h₁₂⟩
    exact ⟨h₁,h₂,h₃,h₄,h₅,h₆,h₇,h₈,h₉,h₁₀,h₁₁,h₁₂,fun w hw => by cases hw⟩

end Flags

/-- A line of the reply: the BSS it is for, the bytes that were left for it, and the flags that
were written. -/
structure ScanLine where
  bss : Bss
  buflen : ℕ
  flags : Bytes

/-- The line, without its newline. -/
def ScanLine.text (l : ScanLine) : Bytes := l.bss.headTxt ++ (l.flags ++ 9 :: l.bss.ssidTxt)

section Lines
variable (cfg : SupplicantConfig)

/-- The flags that are written into a buffer of some bytes. -/
def Bss.flagsField (bss : Bss) (buflen : ℕ) : Bytes :=
  (soFar (bss.flagsTxt buflen cfg bss.headTxt)).drop bss.headTxt.length

/-- The lines that `scanResultsLoop` places. -/
def scanLinesLoop (size : ℕ) : List Bss → Bytes → List ScanLine
  | [], _ => []
  | bss :: rest, txt =>
    match ctrlIfaceScanResult cfg bss (size-txt.length) with
    | none => []
    | some [] => scanLinesLoop size rest txt
    | some (c :: line) =>
      if size-txt.length ≤ (c :: line).length then []
      else ⟨bss,size-txt.length,bss.flagsField cfg (size-txt.length)⟩ ::
        scanLinesLoop size rest (txt ++ c :: line)

def scanLines (size : ℕ) (bsss : List Bss) : List ScanLine :=
  scanLinesLoop cfg size bsss scanHeader

variable {cfg} {buflen : ℕ} {bss : Bss}

theorem put_ok {txt piece t : Bytes} (h : put buflen txt piece = .ok t) : t = txt ++ piece := by
  unfold put at h
  split at h
  · exact (Except.ok.inj h).symm
  · cases h

theorem flagsField_plain : plain (bss.flagsField cfg buflen) = true := by
  obtain ⟨s,hs,hplain⟩ := grows_flagsTxt buflen cfg bss bss.headTxt
  rwa [Bss.flagsField,hs,List.drop_left]

/-- A result is empty, or it is the line of the BSS and all of the flags with a name of their own
were written. -/
theorem ctrlIfaceScanResult_eq {line : Bytes} (h : ctrlIfaceScanResult cfg bss buflen = some line) :
    line = [] ∨ line = ScanLine.text ⟨bss,buflen,bss.flagsField cfg buflen⟩ ++ [10] ∧
      bss.flagsTxt buflen cfg bss.headTxt = .ok (bss.headTxt ++ bss.flagsField cfg buflen) := by
  unfold ctrlIfaceScanResult at h
  split at h
  · exact .inl (Option.some.inj h).symm
  right
  cases hhead : put buflen [] bss.headTxt with
  | error t =>
    rw [hhead] at h
    cases h
  | ok head =>
    have hempty : head = [] ++ bss.headTxt := put_ok hhead
    rw [List.nil_append] at hempty
    subst hempty
    rw [hhead] at h
    cases hflags : bss.flagsTxt buflen cfg bss.headTxt with
    | error t =>
      simp only [bind,Except.bind,hflags] at h
      cases h
    | ok flags =>
      simp only [bind,Except.bind,hflags] at h
      have hfield : flags = bss.headTxt ++ bss.flagsField cfg buflen := by
        obtain ⟨s,hs,-⟩ := grows_flagsTxt buflen cfg bss bss.headTxt
        rw [Bss.flagsField,hs,List.drop_left,← hs,hflags]
        rfl
      cases hssid : put buflen flags (9 :: bss.ssidTxt) with
      | error t =>
        rw [hssid] at h
        cases h
      | ok txt =>
        rw [hssid] at h
        cases hend : put buflen txt [10] with
        | error t =>
          simp only [hend] at h
          cases h
        | ok t =>
          simp only [hend] at h
          obtain rfl : t = line := Option.some.inj h
          refine ⟨?_,by rw [hfield]⟩
          rw [put_ok hend,put_ok hssid,hfield]
          simp only [ScanLine.text,List.append_assoc,List.cons_append]

theorem scanResultsLoop_eq {size : ℕ} {bsss : List Bss} {txt : Bytes} (h : txt.length < size) :
    scanResultsLoop cfg size bsss txt =
      txt ++ (scanLinesLoop cfg size bsss txt).flatMap fun l => l.text ++ [10] := by
  induction bsss generalizing txt with
  | nil => exact (List.append_nil txt).symm
  | cons bss rest ih =>
    rw [scanResultsLoop,scanLinesLoop]
    cases hresult : ctrlIfaceScanResult cfg bss (size-txt.length) with
    | none => exact (List.append_nil txt).symm
    | some line =>
      cases line with
      | nil =>
        have hroom : ¬ size-txt.length ≤ ([] : Bytes).length := by
          rw [List.length_nil]
          omega
        dsimp only
        rw [if_neg hroom,List.append_nil,ih h]
      | cons c line =>
        dsimp only
        split
        · exact (List.append_nil txt).symm
        · rename_i hroom
          have hline := ((ctrlIfaceScanResult_eq hresult).resolve_left (List.cons_ne_nil c line)).1
          have hnext : (txt ++ c :: line).length < size := by
            rw [List.length_append]
            omega
          rw [ih hnext,List.flatMap_cons,← hline,List.append_assoc]

/-- The flags of a line are what `flagsTxt` wrote without an error. -/
theorem mem_scanLinesLoop {size : ℕ} {bsss : List Bss} {txt : Bytes} {l : ScanLine}
    (h : l ∈ scanLinesLoop cfg size bsss txt) : l.flags = l.bss.flagsField cfg l.buflen ∧
      l.bss.flagsTxt l.buflen cfg l.bss.headTxt = .ok (l.bss.headTxt ++ l.flags) := by
  induction bsss generalizing txt with
  | nil => cases h
  | cons bss rest ih =>
    rw [scanLinesLoop] at h
    split at h
    · cases h
    · exact ih h
    · rename_i c line hresult
      split at h
      · cases h
      · rcases List.mem_cons.mp h with rfl | h
        · exact ⟨rfl,((ctrlIfaceScanResult_eq hresult).resolve_left (List.cons_ne_nil c line)).2⟩
        · exact ih h

theorem scanLine_plain {size : ℕ} {bsss : List Bss} :
    ∀ l ∈ scanLines cfg size bsss, plain l.flags = true := by
  intro l hl
  rw [(mem_scanLinesLoop hl).1]
  exact flagsField_plain

/-- The flags field of a line is empty if the BSS has no flag with a name that fits. -/
theorem scanLine_flags {size : ℕ} {bsss : List Bss} {l : ScanLine}
    (h : l ∈ scanLines cfg size bsss) : l.flags ≠ [] ↔ l.bss.hasFlags cfg l.buflen = true := by
  rw [← Bool.not_eq_false,← flagsTxt_stays_iff,(mem_scanLinesLoop h).2,Except.ok.injEq,
    List.append_right_eq_self]

/-- Nothing is written into a buffer of no bytes. -/
theorem scanLinesLoop_full {size : ℕ} (bsss : List Bss) {txt : Bytes} (h : size ≤ txt.length) :
    scanLinesLoop cfg size bsss txt = [] := by
  induction bsss with
  | nil => rfl
  | cons bss rest ih =>
    have hempty : size-txt.length = 0 := Nat.sub_eq_zero_of_le h
    rw [scanLinesLoop,hempty]
    split
    · rfl
    · exact ih
    · exact if_pos (Nat.zero_le _)

/-- The reply is the header and the lines, or empty if the header does not fit. -/
theorem ctrlIfaceScanResults_cases (cfg : SupplicantConfig) (size : ℕ) (bsss : List Bss) :
    (ctrlIfaceScanResults cfg size bsss = [] ∧ scanLines cfg size bsss = []) ∨
      ctrlIfaceScanResults cfg size bsss =
        scanHeader ++ (scanLines cfg size bsss).flatMap fun l => l.text ++ [10] := by
  unfold ctrlIfaceScanResults put
  by_cases h : scanHeader.length < size
  · right
    rw [if_pos (by simpa using h)]
    exact scanResultsLoop_eq h
  · left
    rw [if_neg (by simpa using h)]
    exact ⟨rfl,scanLinesLoop_full bsss (Nat.le_of_not_lt h)⟩

end Lines

end WpaCliWrapper
