import WpaCliWrapper.Oper.Steps
import WpaCliWrapper.Supplicant.CtrlIface

/-! Whole runs of `connect_wifi`: which requests it sends after `network_id` is filled, and for
which configurations it stays inside its arrays. -/
namespace WpaCliWrapper
open CText Exchange

variable {D : Daemon}

def removeRequest (id : Bytes) : Bytes := ascii "REMOVE_NETWORK" ++ 32 :: id

/-- The requests that carry the text of `network_id`, and the hidden one. -/
inductive NetworkRequest (id : Bytes) : Bytes → Prop
  | set (name : Bytes) (value : List Bytes) : NetworkRequest id (setRequest id name value)
  | enable : NetworkRequest id (ascii "ENABLE_NETWORK" ++ 32 :: id)
  | disable : NetworkRequest id (ascii "DISABLE_NETWORK" ++ 32 :: id)
  | remove : NetworkRequest id (removeRequest id)
  | list : NetworkRequest id (ascii "LIST_NETWORKS")

/-- The configuration keeps the steps inside the arrays: the command with the SSID does not
overfill `argv`; and if that command is sent at all, the password is not used for WPA, and for
WEP it can be read and does not overfill `argv` either. -/
def ConfigFits (m : Machine) (id : Bytes) (config : WifiConfig) : Prop :=
  ∃ ssid, config.ssidText = some ssid ∧
    ¬ Overfills kMaxArgs (setNetworkCmd id (ascii "ssid") ssid.bytes).bytes ∧
    (words isBlank ssid.bytes ≠ [] → config.flag ≠ 1 ∧
      (config.flag = 0 → ∃ text, m.stringAt config.password = some text ∧
        ¬ Overfills kMaxArgs (setNetworkCmd id (ascii "wep_key0") text.bytes).bytes))

theorem ssidText_eq {config : WifiConfig} {ssid : CString} (h : config.ssidText = some ssid) :
    ssid.bytes = cstr config.ssid ∧ ssid.bytes.length < 128 := by
  unfold WifiConfig.ssidText at h
  split at h
  · rename_i hnul
    cases h
    refine ⟨rfl,?_⟩
    have hle := (List.takeWhile_prefix (l := config.ssid) (· != 0)).length_le
    have hne : (cstr config.ssid).length ≠ config.ssid.length := by
      intro he
      have hall := (List.takeWhile_prefix (l := config.ssid) (· != 0)).eq_of_length he
      exact cstr_noNul config.ssid (by rw [cstr,hall]; exact hnul)
    have hsize := config.size
    change (cstr config.ssid).length < 128
    unfold cstr at hne ⊢
    omega
  · cases h

/-- The whole SSID fits the command. -/
theorem valuePart_ssid {id : Bytes} (hi : IdText id) {config : WifiConfig} {ssid : CString}
    (h : config.ssidText = some ssid) : valuePart id (ascii "ssid") ssid.bytes = ssid.bytes := by
  have hlen := (ssidText_eq h).2
  have hshort := hi.short
  have h4 : (ascii "ssid").length = 4 := by decide
  rw [valuePart,h4]
  exact List.take_of_length_le (by omega)

theorem valueWords_ssid {id : Bytes} (hi : IdText id) {config : WifiConfig} {ssid : CString}
    (h : config.ssidText = some ssid) :
    valueWords id (ascii "ssid") ssid.bytes = (words isBlank ssid.bytes).take 13 := by
  rw [valueWords,valuePart_ssid hi h]

/-- What is sent for the SSID has words if the SSID has. -/
theorem valueWords_ssid_ne_nil {id : Bytes} (hi : IdText id) {config : WifiConfig} {ssid : CString}
    (h : config.ssidText = some ssid) :
    valueWords id (ascii "ssid") ssid.bytes ≠ [] ↔ words isBlank ssid.bytes ≠ [] := by
  rw [valueWords_ssid hi h]
  exact not_congr (by simp)

theorem ssid_name : IsWord isBlank (ascii "ssid") ∧ 0 ∉ ascii "ssid" ∧ (ascii "ssid").length < 16 :=
  ⟨by decide,by decide,by decide⟩

theorem keyMgmt_name :
    IsWord isBlank (ascii "key_mgmt") ∧ 0 ∉ ascii "key_mgmt" ∧ (ascii "key_mgmt").length < 16 :=
  ⟨by decide,by decide,by decide⟩

theorem wepKey_name :
    IsWord isBlank (ascii "wep_key0") ∧ 0 ∉ ascii "wep_key0" ∧ (ascii "wep_key0").length < 16 :=
  ⟨by decide,by decide,by decide⟩

/-- `NONE` is one word, whatever the id is. -/
theorem keyMgmt_words {id : Bytes} (hi : IdText id) :
    ¬ Overfills kMaxArgs (setNetworkCmd id (ascii "key_mgmt") (ascii "NONE")).bytes ∧
      valueWords id (ascii "key_mgmt") (ascii "NONE") = [ascii "NONE"] := by
  have hshort := hi.short
  have h8 : (ascii "key_mgmt").length = 8 := by decide
  have h4 : (ascii "NONE").length = 4 := by decide
  have hpart : valuePart id (ascii "key_mgmt") (ascii "NONE") = ascii "NONE" := by
    rw [valuePart,h8]
    exact List.take_of_length_le (by omega)
  rw [setNetworkCmd_overfills hi keyMgmt_name (by decide),valueWords,hpart]
  exact ⟨by decide,by decide⟩

section Configure
variable {m : Machine} (cfg : BuildConfig) {w : Wrapper D} {conn : Conn D} (h : On w conn)
  {id : Bytes} (hi : IdText id)
include h hi

/-- A `set_network` step that stays inside `argv` sends its request or nothing. -/
theorem set_runs {name value : Bytes} (hname : IsWord isBlank name ∧ 0 ∉ name ∧ name.length < 16)
    (hv : 0 ∉ value) (ho : ¬ Overfills kMaxArgs (setNetworkCmd id name value).bytes) :
    ∃ w' ret conn', wpaCliCommExec cfg w (setNetworkCmd id name value) = .ok (w',ret) ∧
      On w' conn' ∧ Link.Sends (takes 1) (NetworkRequest id) conn conn' := by
  obtain ⟨-,hquiet,hask⟩ := set_step cfg h hi hname hv
  by_cases hnil : valueWords id name value = []
  · obtain ⟨w',hr,hon⟩ := hquiet ho hnil
    exact ⟨w',-1,conn,hr,hon,.refl⟩
  · obtain ⟨w',ret,hr,hon,-⟩ := hask ho hnil
    exact ⟨w',ret,_,hr,hon,.step .refl (.set _ _)⟩

variable {cfg} in
/-- A `set_network` step that succeeds has sent a value and got an `OK`. -/
theorem set_succeeded {name value : Bytes} (hname : IsWord isBlank name ∧ 0 ∉ name ∧ name.length < 16)
    (hv : 0 ∉ value) {w' : Wrapper D}
    (hr : wpaCliCommExec cfg w (setNetworkCmd id name value) = .ok (w',0)) :
    valueWords id name value ≠ [] ∧
      On w' (conn.exchange (takes 1) (setRequest id name (valueWords id name value))).1 ∧
      ∃ r, (conn.exchange (takes 1) (setRequest id name (valueWords id name value))).2.2 = .got r ∧
        saysOk r := by
  obtain ⟨hfault,hquiet,hask⟩ := set_step cfg h hi hname hv
  by_cases ho : Overfills kMaxArgs (setNetworkCmd id name value).bytes
  · obtain ⟨fault,hf⟩ := hfault ho
    rw [hf] at hr
    cases hr
  by_cases hnil : valueWords id name value = []
  · obtain ⟨w₁,hr₁,-⟩ := hquiet ho hnil
    rw [hr₁] at hr
    cases hr
  · obtain ⟨w₁,ret₁,hr₁,hon₁,hret₁⟩ := hask ho hnil
    rw [hr₁] at hr
    cases hr
    exact ⟨hnil,hon₁,hret₁.mp rfl⟩

theorem password_runs {flag : ℤ} {password : UInt8} (h1 : flag ≠ 1) (h0 : flag = 0 → ∀ w₁,
      wpaCliCommExec cfg w (setNetworkCmd id (ascii "key_mgmt") (ascii "NONE")) = .ok (w₁,0) →
      ∃ text, m.stringAt password = some text ∧
        ¬ Overfills kMaxArgs (setNetworkCmd id (ascii "wep_key0") text.bytes).bytes) :
    ∃ w' ret conn', setPassword m cfg w id flag password = .ok (w',ret) ∧ On w' conn' ∧
      Link.Sends (takes 1) (NetworkRequest id) conn conn' := by
  unfold setPassword
  by_cases hflag : flag = 0
  · obtain ⟨w₁,ret₁,conn₁,hr₁,hon₁,hs₁⟩ :=
      set_runs cfg h hi keyMgmt_name (by decide) (keyMgmt_words hi).1
    rw [if_pos hflag,hr₁]
    by_cases hret : ret₁ = 0
    · obtain ⟨text,ht,ho⟩ := h0 hflag w₁ (hret ▸ hr₁)
      obtain ⟨w₂,ret₂,conn₂,hr₂,hon₂,hs₂⟩ := set_runs cfg hon₁ hi wepKey_name text.noNul ho
      refine ⟨w₂,ret₂,conn₂,?_,hon₂,hs₁.trans hs₂⟩
      simp only [hret,ht]
      exact hr₂
    · exact ⟨w₁,-1,conn₁,if_pos hret,hon₁,hs₁⟩
  · rw [if_neg hflag,if_neg h1]
    exact ⟨w,-1,conn,rfl,h,.refl⟩

/-- The settings are worked through without a fault, if the credentials fit as far as the steps
before them succeed. -/
theorem configure_steps {config : WifiConfig} {ssid : CString} (hssid : config.ssidText = some ssid)
    (ho : ¬ Overfills kMaxArgs (setNetworkCmd id (ascii "ssid") ssid.bytes).bytes)
    (hkey : ∀ w₁ conn₁, setSsid cfg w id ssid = .ok (w₁,0) → On w₁ conn₁ → config.flag ≠ 1 ∧
      (config.flag = 0 → ∀ w₂,
        wpaCliCommExec cfg w₁ (setNetworkCmd id (ascii "key_mgmt") (ascii "NONE")) = .ok (w₂,0) →
        ∃ text, m.stringAt config.password = some text ∧
          ¬ Overfills kMaxArgs (setNetworkCmd id (ascii "wep_key0") text.bytes).bytes)) :
    ∃ w' connected conn', configureNetwork m cfg w config id = .ok (w',connected) ∧ On w' conn' ∧
      Link.Sends (takes 1) (NetworkRequest id) conn conn' := by
  obtain ⟨w₁,ret₁,conn₁,hr₁,hon₁,hs₁⟩ := set_runs cfg h hi ssid_name ssid.noNul ho
  have hr₁ : setSsid cfg w id ssid = .ok (w₁,ret₁) := hr₁
  simp only [configureNetwork,hssid,hr₁]
  by_cases hret₁ : ret₁ = 0
  · obtain ⟨hflag,hwep⟩ := hkey w₁ conn₁ (hret₁ ▸ hr₁) hon₁
    obtain ⟨w₂,ret₂,conn₂,hr₂,hon₂,hs₂⟩ := password_runs cfg hon₁ hi hflag hwep
    by_cases hret₂ : ret₂ = 0
    · obtain ⟨w₃,ret₃,hr₃,hon₃,-⟩ := enable_step cfg hon₂ hi
      refine ⟨w₃,ret₃ == 0,_,?_,hon₃,(hs₁.trans hs₂).step .enable⟩
      simp [hret₁,hr₂,hret₂,hr₃,bind,Except.bind,pure,Except.pure]
    · refine ⟨w₂,false,conn₂,?_,hon₂,hs₁.trans hs₂⟩
      simp [hret₁,hr₂,hret₂,bind,Except.bind,pure,Except.pure]
  · exact ⟨w₁,false,conn₁,if_pos hret₁,hon₁,hs₁⟩

/-- A configuration that fits is worked through without a fault. -/
theorem configure_runs {config : WifiConfig} (hfit : ConfigFits m id config) :
    ∃ w' connected conn', configureNetwork m cfg w config id = .ok (w',connected) ∧ On w' conn' ∧
      Link.Sends (takes 1) (NetworkRequest id) conn conn' := by
  obtain ⟨ssid,hssid,ho,hpass⟩ := hfit
  refine configure_steps cfg h hi hssid ho fun w₁ conn₁ hr hon => ?_
  have hwords := (set_succeeded h hi ssid_name ssid.noNul hr).1
  obtain ⟨hflag,hwep⟩ := hpass ((valueWords_ssid_ne_nil hi hssid).mp hwords)
  exact ⟨hflag,fun h0 _ _ => hwep h0⟩

section Answered
variable (hidle : conn.Idle (takes 1)) {c : D.Choice} {d : Delivery D.server}
  {env : List (Delivery D.server)} (he : conn.env = d :: env) (hd : Link.Answers c d)
include hidle he hd

omit h hi in
/-- A step whose request is served in time succeeds if the answer is `OK`. -/
theorem asked {q : Bytes} {ret : ℤ}
    (hret : ret = 0 ↔ ∃ r, (conn.exchange (takes 1) q).2.2 = .got r ∧ saysOk r) :
    (conn.exchange (takes 1) q).1.Idle (takes 1) ∧ (conn.exchange (takes 1) q).1.env = env ∧
      (conn.exchange (takes 1) q).1.server = (D.serve c conn.server q).1 ∧
      (conn.exchange (takes 1) q).1.done = conn.done ++ [(q,(D.serve c conn.server q).2)] ∧
      ((D.serve c conn.server q).2 = okReply → ret = 0) := by
  obtain ⟨hi',he',hs',hdone,hgot⟩ := hidle.exchange_answered (skips_takes Nat.one_pos) he hd q
  refine ⟨hi',he',hs',hdone,fun hok => hret.mpr ⟨_,hgot ?_,?_⟩⟩
  · exact (congrArg (takes 1) hok).trans (by decide)
  · exact (congrArg saysOk hok).trans (by decide)

/-- A `set_network` step whose request is served in time. -/
theorem set_answered {name value : Bytes} (hname : IsWord isBlank name ∧ 0 ∉ name ∧ name.length < 16)
    (hv : 0 ∉ value) (ho : ¬ Overfills kMaxArgs (setNetworkCmd id name value).bytes)
    (hne : valueWords id name value ≠ []) :
    ∃ w' ret conn' r, wpaCliCommExec cfg w (setNetworkCmd id name value) = .ok (w',ret) ∧
      On w' conn' ∧ Link.Sends (takes 1) (NetworkRequest id) conn conn' ∧ conn'.Idle (takes 1) ∧
      conn'.env = env ∧
      (conn'.server,r) = D.serve c conn.server (setRequest id name (valueWords id name value)) ∧
      conn'.done = conn.done ++ [(setRequest id name (valueWords id name value),r)] ∧
      (r = okReply → ret = 0) := by
  obtain ⟨-,-,hask⟩ := set_step cfg h hi hname hv
  obtain ⟨w',ret,hr,hon,hret⟩ := hask ho hne
  obtain ⟨hi',he',hs',hdone,h0⟩ := asked hidle he hd hret
  exact ⟨w',ret,_,_,hr,hon,.step .refl (.set _ _),hi',he',Prod.ext hs' rfl,hdone,h0⟩

theorem enable_answered :
    ∃ w' ret conn' r, enableNetwork cfg w id = .ok (w',ret) ∧ On w' conn' ∧
      Link.Sends (takes 1) (NetworkRequest id) conn conn' ∧
      conn'.done = conn.done ++ [(ascii "ENABLE_NETWORK" ++ 32 :: id,r)] ∧ (r = okReply → ret = 0) := by
  obtain ⟨w',ret,hr,hon,hret⟩ := enable_step cfg h hi
  obtain ⟨-,-,-,hdone,h0⟩ := asked hidle he hd hret
  exact ⟨w',ret,_,_,hr,hon,.step .refl .enable,hdone,h0⟩

/-- A `set_network` step whose request is answered with `OK` in time. -/
theorem set_accepted {name value : Bytes} (hname : IsWord isBlank name ∧ 0 ∉ name ∧ name.length < 16)
    (hv : 0 ∉ value) (ho : ¬ Overfills kMaxArgs (setNetworkCmd id name value).bytes)
    (hne : valueWords id name value ≠ [])
    (hok : (D.serve c conn.server (setRequest id name (valueWords id name value))).2 = okReply) :
    ∃ w' conn', wpaCliCommExec cfg w (setNetworkCmd id name value) = .ok (w',0) ∧ On w' conn' ∧
      conn'.Idle (takes 1) ∧ conn'.env = env ∧
      conn'.server = (D.serve c conn.server (setRequest id name (valueWords id name value))).1 := by
  obtain ⟨w',ret,conn',r,hr,hon,-,hi',he',hserve,-,h0⟩ :=
    set_answered cfg h hi hidle he hd hname hv ho hne
  have hreply := (congrArg Prod.snd hserve).trans hok
  exact ⟨w',conn',h0 hreply ▸ hr,hon,hi',he',congrArg Prod.fst hserve⟩

end Answered

omit hi in
/-- Without an SSID that can be set the call leaves its arrays. -/
theorem configure_ssid_faults {config : WifiConfig} (hssid : ∀ ssid, config.ssidText = some ssid →
    Overfills kMaxArgs (setNetworkCmd id (ascii "ssid") ssid.bytes).bytes) :
    ∃ fault, configureNetwork m cfg w config id = .error fault := by
  unfold configureNetwork
  cases hs : config.ssidText with
  | none => exact ⟨_,rfl⟩
  | some ssid =>
    obtain ⟨fault,hf⟩ := commExec_fault cfg h (hssid ssid hs)
    exact ⟨fault,by simp only [setSsid,hf]; rfl⟩

/-- The credential step leaves its arrays, if the SSID is accepted, and for WEP the key management,
and the missing argument cannot be read. -/
theorem configure_key_faults {config : WifiConfig} {ssid : CString}
    (hssid : config.ssidText = some ssid)
    (ho : ¬ Overfills kMaxArgs (setNetworkCmd id (ascii "ssid") ssid.bytes).bytes)
    (hne : words isBlank ssid.bytes ≠ []) (hidle : conn.Idle (takes 1)) {c : D.Choice}
    {env : List (Delivery D.server)} (he : conn.env = Link.atOnce c :: Link.atOnce c :: env)
    (hok : (D.serve c conn.server
      (setRequest id (ascii "ssid") (valueWords id (ascii "ssid") ssid.bytes))).2 = okReply)
    (hkey : config.flag = 1 ∨ config.flag = 0 ∧
      (D.serve c (D.serve c conn.server
        (setRequest id (ascii "ssid") (valueWords id (ascii "ssid") ssid.bytes))).1
        (setRequest id (ascii "key_mgmt") [ascii "NONE"])).2 = okReply ∧
      ∀ text, m.stringAt config.password = some text →
        Overfills kMaxArgs (setNetworkCmd id (ascii "wep_key0") text.bytes).bytes) :
    ∃ fault, configureNetwork { m with missingArg := none } cfg w config id = .error fault := by
  obtain ⟨w₁,conn₁,hr₁,hon₁,hi₁,he₁,hs₁⟩ := set_accepted cfg h hi hidle he ⟨rfl,rfl⟩
    ssid_name ssid.noNul ho ((valueWords_ssid_ne_nil hi hssid).mpr hne) hok
  have hr₁ : setSsid cfg w id ssid = .ok (w₁,0) := hr₁
  have hfault : ∃ fault, setPassword { m with missingArg := none } cfg w₁ id config.flag
      config.password = .error fault := by
    unfold setPassword
    rcases hkey with h1 | ⟨h0,hok',hwep⟩
    · rw [if_neg (by omega),if_pos h1]
      cases m.stringAt config.password <;> exact ⟨_,rfl⟩
    · rw [← hs₁,← (keyMgmt_words hi).2] at hok'
      obtain ⟨w₂,conn₂,hr₂,hon₂,-⟩ := set_accepted cfg hon₁ hi hi₁ he₁ ⟨rfl,rfl⟩
        keyMgmt_name (by decide) (keyMgmt_words hi).1 (by rw [(keyMgmt_words hi).2]; simp) hok'
      rw [if_pos h0,hr₂]
      cases ht : m.stringAt config.password with
      | none => exact ⟨_,rfl⟩
      | some text =>
        obtain ⟨fault,hf⟩ := commExec_fault cfg hon₂ (hwep text ht)
        exact ⟨fault,hf⟩
  obtain ⟨fault,hf⟩ := hfault
  exact ⟨fault,by simp [configureNetwork,hssid,hr₁,hf,bind,Except.bind]⟩

/-- A configuration that does not fit leads to a fault, if the daemon accepts every setting and
the missing argument cannot be read. -/
theorem configure_faults {config : WifiConfig} (hfit : ¬ ConfigFits m id config)
    (hidle : conn.Idle (takes 1)) {c : D.Choice} {env : List (Delivery D.server)}
    (he : conn.env = Link.atOnce c :: Link.atOnce c :: env)
    (hok : ∀ s q, (∃ name value, q = setRequest id name value) → (D.serve c s q).2 = okReply) :
    ∃ fault, configureNetwork { m with missingArg := none } cfg w config id = .error fault := by
  by_cases hs : ∀ ssid, config.ssidText = some ssid →
      Overfills kMaxArgs (setNetworkCmd id (ascii "ssid") ssid.bytes).bytes
  · exact configure_ssid_faults cfg h hs
  obtain ⟨ssid,hs⟩ := not_forall.mp hs
  obtain ⟨hssid,ho⟩ := Classical.not_imp.mp hs
  have hrest : ¬ (words isBlank ssid.bytes ≠ [] → config.flag ≠ 1 ∧
      (config.flag = 0 → ∃ text, m.stringAt config.password = some text ∧
        ¬ Overfills kMaxArgs (setNetworkCmd id (ascii "wep_key0") text.bytes).bytes)) :=
    fun hr => hfit ⟨ssid,hssid,ho,hr⟩
  obtain ⟨hne,hpass⟩ := Classical.not_imp.mp hrest
  refine configure_key_faults cfg h hi hssid ho hne hidle he (hok _ _ ⟨_,_,rfl⟩) ?_
  by_cases h1 : config.flag = 1
  · exact .inl h1
  · obtain ⟨h0,htext⟩ := Classical.not_imp.mp (not_and.mp hpass h1)
    refine .inr ⟨h0,hok _ _ ⟨_,_,rfl⟩,fun text ht => ?_⟩
    by_contra hwep
    exact htext ⟨text,ht,hwep⟩

end Configure

end WpaCliWrapper
