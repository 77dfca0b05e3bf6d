import WpaCliWrapper.Utils.Hex
import WpaCliWrapper.Supplicant.CtrlIface
import WpaCliWrapper.Wrapper.Plan

/-! The commands `wps_reg` and `wps_er_config`, which send new settings of an access point with its
SSID and its key in hexadecimal. -/
namespace WpaCliWrapper
open CText Exchange

section Requests

/-- The text of both requests, before it is put into `cmd`. -/
def wpsRequest (name bssid pin ssidHex auth encr keyHex : Bytes) : Bytes :=
  name ++ 32 :: (bssid ++ 32 :: (pin ++ 32 :: (ssidHex ++ 32 :: (auth ++ 32 :: (encr ++
    32 :: keyHex)))))

def tooLongCommand (name : Bytes) : Bytes := ascii "Too long " ++ name ++ ascii " command.\n"

/-- What the code does with the text: `cmd` has 256 bytes. -/
def wpsPlan (name text : Bytes) : Plan :=
  if 256 ≤ text.length then .quiet [tooLongCommand name] (-1) else .print text

variable (ssidStack keyStack : ℕ → UInt8)

/-- The branch of both commands for five or six arguments. The arrays on the stack hold anything. -/
def wpsSettingsPlan (name bssid pin ssid auth encr : Bytes) (key : Option Bytes) : Option Plan := do
  let ssidHex ← hexField ssidMaxLen ssidStack (some ssid)
  let keyHex ← hexField 64 keyStack key
  return wpsPlan name (wpsRequest name bssid pin ssidHex auth encr keyHex)

def wpsRegUsage : List Bytes :=
  [ascii "Invalid WPS_REG command: need two arguments:\n" ++ ascii "- BSSID of the target AP\n" ++
     ascii "- AP PIN\n",
   ascii "Alternatively, six arguments can be used to " ++ ascii "reconfigure the AP:\n" ++
     ascii "- BSSID of the target AP\n" ++ ascii "- AP PIN\n" ++ ascii "- new SSID\n" ++
     ascii "- new auth (OPEN, WPAPSK, WPA2PSK)\n" ++ ascii "- new encr (NONE, WEP, TKIP, CCMP)\n" ++
     ascii "- new key\n"]

def wpsErConfigUsage : List Bytes :=
  [ascii "Invalid WPS_ER_CONFIG command: need six arguments:\n" ++ ascii "- AP UUID\n" ++
     ascii "- AP PIN\n" ++ ascii "- new SSID\n" ++ ascii "- new auth (OPEN, WPAPSK, WPA2PSK)\n" ++
     ascii "- new encr (NONE, WEP, TKIP, CCMP)\n" ++ ascii "- new key\n"]

def wpsRegPlan : List Bytes → Option Plan
  | [bssid,pin] =>
    some (wpsPlan (ascii "WPS_REG") (ascii "WPS_REG" ++ 32 :: (bssid ++ 32 :: pin)))
  | [bssid,pin,ssid,auth,encr] =>
    wpsSettingsPlan ssidStack keyStack (ascii "WPS_REG") bssid pin ssid auth encr none
  | [bssid,pin,ssid,auth,encr,key] =>
    wpsSettingsPlan ssidStack keyStack (ascii "WPS_REG") bssid pin ssid auth encr (some key)
  | _ => some (.quiet wpsRegUsage (-1))

def wpsErConfigPlan : List Bytes → Option Plan
  | [uuid,pin,ssid,auth,encr] =>
    wpsSettingsPlan ssidStack keyStack (ascii "WPS_ER_CONFIG") uuid pin ssid auth encr none
  | [uuid,pin,ssid,auth,encr,key] =>
    wpsSettingsPlan ssidStack keyStack (ascii "WPS_ER_CONFIG") uuid pin ssid auth encr (some key)
  | _ => some (.quiet wpsErConfigUsage (-1))

variable {D : Daemon} (w : Wrapper D) (argv : List Bytes)

def wpaCliCmdWpsReg : Option (Wrapper D × ℤ) :=
  (wpsRegPlan ssidStack keyStack argv).map (Plan.printed w)

def wpaCliCmdWpsErConfig : Option (Wrapper D × ℤ) :=
  (wpsErConfigPlan ssidStack keyStack argv).map (Plan.printed w)

end Requests

/-- The arguments of both commands; `bssid` is the UUID for `wps_er_config`. -/
structure WpsArgs where
  bssid : Bytes
  pin : Bytes
  ssid : Bytes
  auth : Bytes
  encr : Bytes
  key : Option Bytes

namespace WpsArgs
variable (a : WpsArgs)

def argv : List Bytes := [a.bssid,a.pin,a.ssid,a.auth,a.encr] ++ a.key.toList

def keyBytes : Bytes := a.key.getD []

/-- The SSID and the key are C strings. -/
structure Valid : Prop where
  ssid : 0 ∉ a.ssid
  key : 0 ∉ a.keyBytes

/-- The request has the SSID and the key in its hexadecimal fields. -/
def Carries (name request : Bytes) : Prop :=
  ∃ ssidHex keyHex, request = wpsRequest name a.bssid a.pin ssidHex a.auth a.encr keyHex ∧
    unhex ssidHex = some a.ssid ∧ unhex keyHex = some a.keyBytes

/-- The credentials survive, or the command is rejected with a negative result. -/
inductive Survives (name : Bytes) : Option Plan → Prop
  | rejected {messages code} : code < 0 → Survives name (some (.quiet messages code))
  | carried {request} : a.Carries name request → Survives name (some (.print request))

/-- The length of the request, whose hexadecimal fields hold 32 and 64 bytes at most. -/
def requestLength (name : Bytes) : ℕ :=
  name.length+a.bssid.length+a.pin.length+2*min 32 a.ssid.length+a.auth.length+a.encr.length+
    2*min 64 a.keyBytes.length+6

/-- No byte is changed by its sign, and none is left out. -/
structure Encodable : Prop where
  ssid_length : a.ssid.length ≤ 32
  key_length : a.keyBytes.length ≤ 64
  bytes : ∀ c ∈ a.ssid ++ a.keyBytes, c < 128 ∨ c = 255

end WpsArgs

section Fields

theorem arriving_eq_iff {c : UInt8} : arriving c = c ↔ c < 128 ∨ c = 255 := by
  unfold arriving
  split
  · exact iff_of_true rfl (.inl ‹_›)
  · constructor
    · exact fun h => .inr h.symm
    · rintro (h | rfl)
      · contradiction
      · rfl

/-- A field decodes to the value that was put into it, or the value was not fit for it. -/
theorem take_arriving_eq_iff (max : ℕ) (value : Bytes) : (value.take max).map arriving = value ↔
    value.length ≤ max ∧ ∀ c ∈ value, c < 128 ∨ c = 255 := by
  constructor
  · intro h
    have hlen : value.length ≤ max := by
      have := congrArg List.length h
      rw [List.length_map,List.length_take] at this
      omega
    rw [List.take_of_length_le hlen] at h
    refine ⟨hlen,fun c hc => arriving_eq_iff.mp ?_⟩
    exact List.map_inj_left.mp (h.trans (List.map_id value).symm) c hc
  · rintro ⟨hlen,hbytes⟩
    rw [List.take_of_length_le hlen]
    exact (List.map_congr_left fun c hc => arriving_eq_iff.mpr (hbytes c hc)).trans (List.map_id value)

theorem unhex_noBlank {hex value : Bytes} (h : unhex hex = some value) : 32 ∉ hex :=
  fun hmem => unhex_digits h 32 hmem rfl

/-- The hexadecimal fields of a request are where they are read, for they hold no blank. -/
theorem wpsRequest_inj {name bssid pin auth encr s k s' k' v v' : Bytes} (hs : unhex s = some v)
    (hs' : unhex s' = some v') (h : wpsRequest name bssid pin s auth encr k =
      wpsRequest name bssid pin s' auth encr k') : s = s' ∧ k = k' := by
  unfold wpsRequest at h
  have hfields := List.append_cancel_left (List.cons.inj (List.append_cancel_left h)).2
  have hpin := (List.cons.inj (List.append_cancel_left (List.cons.inj hfields).2)).2
  have hsplit := congrArg splitBlank hpin
  rw [splitBlank_append (unhex_noBlank hs),splitBlank_append (unhex_noBlank hs')] at hsplit
  obtain ⟨hssid,hrest⟩ := Prod.mk.inj (Option.some.inj hsplit)
  have hauth := (List.cons.inj (List.append_cancel_left hrest)).2
  exact ⟨hssid,(List.cons.inj (List.append_cancel_left hauth)).2⟩

end Fields

namespace WpsArgs
variable {a : WpsArgs}

/-- The field of the SSID or of the key. -/
def digits (max : ℕ) (value : Bytes) : Bytes := ((value.take max).map arriving).flatMap byteDigits

theorem wpsRequest_length (a : WpsArgs) (name : Bytes) :
    (wpsRequest name a.bssid a.pin (digits 32 a.ssid) a.auth a.encr (digits 64 a.keyBytes)).length =
      a.requestLength name := by
  unfold wpsRequest digits requestLength
  simp only [List.length_append,List.length_cons,length_flatMap_byteDigits,List.length_map,
    List.length_take]
  omega

theorem carries_iff (name : Bytes) :
    a.Carries name (wpsRequest name a.bssid a.pin (digits 32 a.ssid) a.auth a.encr
      (digits 64 a.keyBytes)) ↔ a.Encodable := by
  have hssid : unhex (digits 32 a.ssid) = some ((a.ssid.take 32).map arriving) :=
    unhex_byteDigits _
  have hkey : unhex (digits 64 a.keyBytes) = some ((a.keyBytes.take 64).map arriving) :=
    unhex_byteDigits _
  constructor
  · rintro ⟨s,k,heq,hs,hk⟩
    obtain ⟨rfl,rfl⟩ := wpsRequest_inj hssid hs heq
    rw [hssid,Option.some_inj,take_arriving_eq_iff] at hs
    rw [hkey,Option.some_inj,take_arriving_eq_iff] at hk
    obtain ⟨hslen,hsbytes⟩ := hs
    obtain ⟨hklen,hkbytes⟩ := hk
    exact ⟨hslen,hklen,fun c hc => (List.mem_append.mp hc).elim (hsbytes c) (hkbytes c)⟩
  · intro h
    refine ⟨_,_,rfl,?_,?_⟩
    · rw [hssid,(take_arriving_eq_iff 32 a.ssid).mpr
        ⟨h.ssid_length,fun c hc => h.bytes c (List.mem_append_left _ hc)⟩]
    · rw [hkey,(take_arriving_eq_iff 64 a.keyBytes).mpr
        ⟨h.key_length,fun c hc => h.bytes c (List.mem_append_right _ hc)⟩]

variable (hv : a.Valid) (ssidStack keyStack : ℕ → UInt8)
include hv

/-- What the code sends or says for any arguments. -/
theorem settingsPlan_eq (name : Bytes) :
    wpsSettingsPlan ssidStack keyStack name a.bssid a.pin a.ssid a.auth a.encr a.key =
      some (wpsPlan name (wpsRequest name a.bssid a.pin (digits 32 a.ssid) a.auth a.encr
        (digits 64 a.keyBytes))) := by
  have hssid : hexField ssidMaxLen ssidStack (some a.ssid) = some (digits 32 a.ssid) :=
    hexField_eq ssidMaxLen ssidStack hv.ssid
  have hkey := hexField_eq 64 keyStack hv.key
  rw [wpsSettingsPlan,hssid,hkey]
  rfl

omit hv in
theorem wpsRegPlan_argv (a : WpsArgs) : wpsRegPlan ssidStack keyStack a.argv =
    wpsSettingsPlan ssidStack keyStack (ascii "WPS_REG") a.bssid a.pin a.ssid a.auth a.encr
      a.key := by
  obtain ⟨bssid,pin,ssid,auth,encr,key⟩ := a
  cases key <;> rfl

omit hv in
theorem wpsErConfigPlan_argv (a : WpsArgs) : wpsErConfigPlan ssidStack keyStack a.argv =
    wpsSettingsPlan ssidStack keyStack (ascii "WPS_ER_CONFIG") a.bssid a.pin a.ssid a.auth a.encr
      a.key := by
  obtain ⟨bssid,pin,ssid,auth,encr,key⟩ := a
  cases key <;> rfl

/-- Both commands send the request of the first bytes of the credentials, or say that it is too
long. -/
theorem wpaCliCmdWps_eq {D : Daemon} (w : Wrapper D) :
    wpaCliCmdWpsReg ssidStack keyStack w a.argv =
      some ((wpsPlan (ascii "WPS_REG") (wpsRequest (ascii "WPS_REG") a.bssid a.pin
        (digits 32 a.ssid) a.auth a.encr (digits 64 a.keyBytes))).printed w) ∧
    wpaCliCmdWpsErConfig ssidStack keyStack w a.argv =
      some ((wpsPlan (ascii "WPS_ER_CONFIG") (wpsRequest (ascii "WPS_ER_CONFIG") a.bssid a.pin
        (digits 32 a.ssid) a.auth a.encr (digits 64 a.keyBytes))).printed w) := by
  rw [wpaCliCmdWpsReg,wpaCliCmdWpsErConfig,wpsRegPlan_argv,wpsErConfigPlan_argv,
    settingsPlan_eq hv,settingsPlan_eq hv]
  exact ⟨rfl,rfl⟩

theorem settings_survive_iff (name : Bytes) :
    a.Survives name
      (wpsSettingsPlan ssidStack keyStack name a.bssid a.pin a.ssid a.auth a.encr a.key) ↔
        256 ≤ a.requestLength name ∨ a.Encodable := by
  rw [settingsPlan_eq hv,wpsPlan,wpsRequest_length]
  by_cases hlong : 256 ≤ a.requestLength name
  · rw [if_pos hlong]
    exact iff_of_true (.rejected (by decide)) (.inl hlong)
  · rw [if_neg hlong]
    constructor
    · rintro (_ | hcarries)
      exact .inr ((carries_iff name).mp hcarries)
    · exact fun h => .carried ((carries_iff name).mpr (h.resolve_left hlong))

/-- Both commands keep the SSID and the key of requests that are sent exactly where these have at
most 32 and 64 bytes, each of them below 128 or 255. -/
theorem wps_survives_iff :
    (a.Survives (ascii "WPS_REG") (wpsRegPlan ssidStack keyStack a.argv) ↔
      256 ≤ a.requestLength (ascii "WPS_REG") ∨ a.Encodable) ∧
    (a.Survives (ascii "WPS_ER_CONFIG") (wpsErConfigPlan ssidStack keyStack a.argv) ↔
      256 ≤ a.requestLength (ascii "WPS_ER_CONFIG") ∨ a.Encodable) := by
  rw [wpsRegPlan_argv,wpsErConfigPlan_argv]
  exact ⟨settings_survive_iff hv ssidStack keyStack _,settings_survive_iff hv ssidStack keyStack _⟩

end WpsArgs

/-- A network name and a passphrase in plain letters. -/
def plainArgs : WpsArgs where
  bssid := ascii "02:00:00:00:00:01"
  pin := ascii "12345670"
  ssid := ascii "new net"
  auth := ascii "WPA2PSK"
  encr := ascii "CCMP"
  key := some (ascii "12345678")

theorem plainArgs_encodable : plainArgs.Encodable := by
  have hall : (plainArgs.ssid ++ plainArgs.keyBytes).all (· < 128) = true := rfl
  refine ⟨by decide +kernel,by decide +kernel,fun c hc => .inl ?_⟩
  exact of_decide_eq_true (List.all_eq_true.mp hall c hc)

theorem plainArgs_survive :
    plainArgs.Survives (ascii "WPS_REG") (wpsRegPlan (fun _ => 7) (fun _ => 7) plainArgs.argv) := by
  have hv : plainArgs.Valid := ⟨by decide +kernel,by decide +kernel⟩
  have hiff := (WpsArgs.wps_survives_iff hv (fun _ => 7) (fun _ => 7)).1
  exact hiff.mpr (.inr plainArgs_encodable)

/-- The letter e with an acute accent in UTF-8. -/
def accentArgs : WpsArgs := { plainArgs with ssid := [0xc3,0xa9] }

/-- A name of 33 letters. -/
def longArgs : WpsArgs := { plainArgs with ssid := List.replicate 33 97 }

/-- Both bytes of the letter become 255, and the last letter of the long name is lost. -/
theorem wps_not_survive :
    wpsRegPlan (fun _ => 0) (fun _ => 0) accentArgs.argv =
      some (.print (ascii "WPS_REG 02:00:00:00:00:01 12345670 ffff WPA2PSK CCMP 3132333435363738")) ∧
    ¬ accentArgs.Survives (ascii "WPS_REG")
      (wpsRegPlan (fun _ => 0) (fun _ => 0) accentArgs.argv) ∧
    ¬ longArgs.Survives (ascii "WPS_ER_CONFIG")
      (wpsErConfigPlan (fun _ => 0) (fun _ => 0) longArgs.argv) := by
  refine ⟨by decide +kernel,fun h => ?_,fun h => ?_⟩
  · have hv : accentArgs.Valid := ⟨by decide +kernel,by decide +kernel⟩
    rw [WpsArgs.wpsRegPlan_argv,WpsArgs.settings_survive_iff hv] at h
    have hlen : ¬ 256 ≤ accentArgs.requestLength (ascii "WPS_REG") := by decide +kernel
    have hfit := h.resolve_left hlen
    exact absurd (hfit.bytes 0xc3 (List.mem_append_left _ List.mem_cons_self)) (by decide)
  · have hv : longArgs.Valid := ⟨by decide +kernel,by decide +kernel⟩
    rw [WpsArgs.wpsErConfigPlan_argv,WpsArgs.settings_survive_iff hv] at h
    have hlen : ¬ 256 ≤ longArgs.requestLength (ascii "WPS_ER_CONFIG") := by decide +kernel
    have hfit := h.resolve_left hlen
    exact absurd hfit.ssid_length (by decide +kernel)

section Daemon

/-- `struct wps_new_ap_settings` -/
structure WpsNewApSettings where
  ssidHex : Bytes
  auth : Bytes
  encr : Bytes
  keyHex : Bytes

/-- Both requests end in the new settings. -/
def wpsNewApSettings (newSsid : Bytes) : Option WpsNewApSettings := do
  let (ssidHex,newAuth) ← splitBlank newSsid
  let (auth,newEncr) ← splitBlank newAuth
  let (encr,keyHex) ← splitBlank newEncr
  return ⟨ssidHex,auth,encr,keyHex⟩

/-- `wpa_supplicant_ctrl_iface_wps_reg` as far as `wpas_wps_start_reg`: the BSSID, the PIN and the
settings, if there are any. -/
def ctrlIfaceWpsReg (cmd : Bytes) : Option (Bytes × Bytes × Option WpsNewApSettings) := do
  let (txt,pin) ← splitBlank cmd
  let bssid ← hwaddrAton txt
  match splitBlank pin with
  | none => return (bssid,pin,none)
  | some (pin,newSsid) => return (bssid,pin,some (← wpsNewApSettings newSsid))

/-- `wpa_supplicant_ctrl_iface_wps_er_config` as far as `wpas_wps_er_config`. -/
def ctrlIfaceWpsErConfig (cmd : Bytes) : Option (Bytes × Bytes × WpsNewApSettings) := do
  let (uuid,pin) ← splitBlank cmd
  let (pin,newSsid) ← splitBlank pin
  return (uuid,pin,← wpsNewApSettings newSsid)

namespace WpsArgs

/-- The other arguments are words. -/
structure Words (a : WpsArgs) : Prop where
  bssid : 32 ∉ a.bssid
  pin : 32 ∉ a.pin
  auth : 32 ∉ a.auth
  encr : 32 ∉ a.encr

variable {a : WpsArgs} (hw : a.Words)
include hw

theorem wpsNewApSettings_eq (keyHex : Bytes) :
    wpsNewApSettings (digits 32 a.ssid ++ 32 :: (a.auth ++ 32 :: (a.encr ++ 32 :: keyHex))) =
      some ⟨digits 32 a.ssid,a.auth,a.encr,keyHex⟩ := by
  have hssid : 32 ∉ digits 32 a.ssid := unhex_noBlank (unhex_byteDigits _)
  simp only [wpsNewApSettings,splitBlank_append hssid,splitBlank_append hw.auth,
    splitBlank_append hw.encr,Option.bind_eq_bind,Option.bind_some]
  rfl

/-- The daemon finds the settings of a request in the fields they were put into. -/
theorem ctrlIfaceWpsErConfig_eq (name : Bytes) :
    ctrlIfaceWpsErConfig ((wpsRequest name a.bssid a.pin (digits 32 a.ssid) a.auth a.encr
      (digits 64 a.keyBytes)).drop (name.length+1)) =
        some (a.bssid,a.pin,⟨digits 32 a.ssid,a.auth,a.encr,digits 64 a.keyBytes⟩) := by
  rw [wpsRequest,← List.drop_drop,List.drop_left]
  simp only [List.drop_succ_cons,List.drop_zero,ctrlIfaceWpsErConfig,splitBlank_append hw.bssid,
    splitBlank_append hw.pin,wpsNewApSettings_eq hw,Option.bind_eq_bind,Option.bind_some]
  rfl

theorem ctrlIfaceWpsReg_eq {bssid : Bytes} (hbssid : hwaddrAton a.bssid = some bssid)
    (name : Bytes) :
    ctrlIfaceWpsReg ((wpsRequest name a.bssid a.pin (digits 32 a.ssid) a.auth a.encr
      (digits 64 a.keyBytes)).drop (name.length+1)) =
        some (bssid,a.pin,some ⟨digits 32 a.ssid,a.auth,a.encr,digits 64 a.keyBytes⟩) := by
  rw [wpsRequest,← List.drop_drop,List.drop_left]
  simp only [List.drop_succ_cons,List.drop_zero,ctrlIfaceWpsReg,splitBlank_append hw.bssid,
    splitBlank_append hw.pin,wpsNewApSettings_eq hw,hbssid,Option.bind_eq_bind,Option.bind_some]
  rfl

omit hw in
/-- What the daemon then decodes: the first bytes of the credentials, those of the upper half of the
range as 255. -/
theorem unhex_digits_eq (max : ℕ) (value : Bytes) :
    unhex (digits max value) = some ((value.take max).map arriving) := unhex_byteDigits _

end WpsArgs

end Daemon

end WpaCliWrapper
