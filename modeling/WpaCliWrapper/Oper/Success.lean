import WpaCliWrapper.Oper.ConnectFrame

/-! Calls of `connect_wifi` to a daemon that answers every setting with `OK`. -/
namespace WpaCliWrapper
open CText Exchange

variable {F : SsidFields}

def settingText (id name value : Bytes) : Bytes :=
  ascii "SET_NETWORK " ++ id ++ 32 :: name ++ 32 :: value

/-- The credential settings of a flag: WEP, WPA, or no password. -/
def credentialRequests (id : Bytes) (flag : ℤ) (password : Bytes) : List Bytes :=
  if flag = 0 then
    [settingText id (ascii "key_mgmt") (ascii "NONE"),settingText id (ascii "wep_key0") password]
  else if flag = 1 then [settingText id (ascii "psk") password]
  else []

/-- The requests of a call that connects. -/
def connectRequests (id : Bytes) (flag : ℤ) (ssid password : Bytes) : List Bytes :=
  settingText id (ascii "ssid") ssid :: credentialRequests id flag password ++
    [ascii "ENABLE_NETWORK " ++ id]

def IsSetting (q : Bytes) : Prop :=
  (ascii "SET_NETWORK ").isPrefixOf q ∨ (ascii "ENABLE_NETWORK ").isPrefixOf q
  deriving Decidable

/-- Every `SET_NETWORK` and every `ENABLE_NETWORK` among these requests was answered with `OK`. -/
def Accepted (done : List (Bytes × Bytes)) : Prop := ∀ p ∈ done, IsSetting p.1 → p.2 = okReply

/-- The text of the password, where it can be read. -/
def passwordText (m : Machine) (config : WifiConfig) : Bytes :=
  (m.stringAt config.password).elim [] CString.bytes

/-- Whatever `%s` reads in place of the missing argument: if the daemon adds the network and the
call reads its id, if after the hidden request something is served in time whenever the call waits,
and if every setting is answered with `OK`, then the call returns 0, the requests that it sends about
a network are those of its flag, and it takes nothing back. -/
def ConnectsProperly (m : Machine) (cfg : BuildConfig) (w : Wrapper (anySupplicant F))
    (conn : Conn (anySupplicant F)) (config : WifiConfig) (ssid : CString)
    (hidden : Delivery (anySupplicant F).server) : Prop :=
  ∀ arg d (c : AnyCircumstance) env, Link.Answers c d → c.refusal = none → 7 ≤ env.length →
    (∀ d' ∈ env, ∃ c', Link.Answers c' d') → ∃ w' ret conn',
      connectWifi { m with missingArg := arg } cfg (w.withEnv (d :: hidden :: env)) config =
          .ok (w',ret) ∧ w'.ctrlConn = some conn' ∧
        ((∀ q ∈ conn'.waiting, ¬ IsSetting q) → Accepted (conn'.done.drop conn.done.length) →
          ret = 0 ∧ (conn'.sent.drop conn.sent.length).filter (fun q => (target q).isSome) =
            connectRequests (idReply (nextId conn.server)) config.flag ssid.bytes
              (passwordText m config) ∧
          ∀ q ∈ conn'.sent.drop conn.sent.length, (ascii "DISABLE_NETWORK ").isPrefixOf q = false ∧
            (ascii "REMOVE_NETWORK ").isPrefixOf q = false)

/-- A text that reaches the daemon as it is: up to twelve words with single blanks. -/
def Sendable (text : Bytes) : Prop := SingleSpaced isBlank 32 text ∧ (words isBlank text).length ≤ 12

theorem endsInWord_singleSpaced {text : Bytes} (h : SingleSpaced isBlank 32 text) : EndsInWord text := by
  obtain ⟨ws,hne,hws,ht⟩ := h
  obtain ⟨init,last,rfl⟩ := (List.eq_nil_or_concat ws).resolve_left hne
  rw [List.concat_eq_append] at hws ht
  have hlast : EndsInWord ((spaced 32 init ++ [32]) ++ last) := endsInWord_word _ (hws last (by simp))
  have hsame : (spaced 32 init ++ [32]) ++ last = [32] ++ text := by
    rw [spaced_append,spaced_cons] at ht
    simpa using ht
  rw [hsame] at hlast
  by_cases hnil : text = []
  · subst hnil
    exact absurd hlast (by decide)
  · rwa [endsInWord_append _ hnil] at hlast

/-- Exactly such texts are written back unchanged and leave room in `argv`. -/
theorem sendable_iff (text : Bytes) : Sendable text ↔
    ¬ Overfills 13 text ∧ spaced 32 ((words isBlank text).take 13) = 32 :: text := by
  constructor
  · rintro ⟨hs,hlen⟩
    refine ⟨fun ho => by have h13 := ho.1; omega,?_⟩
    rw [List.take_of_length_le (by omega)]
    exact (spaced_words_iff (by decide) text).mpr hs
  · rintro ⟨ho,ht⟩
    have hws : ∀ v ∈ (words isBlank text).take 13, IsWord isBlank v :=
      fun v hv => isWord_of_mem_words (List.mem_of_mem_take hv)
    have hs : SingleSpaced isBlank 32 text := ⟨_,fun hnil => by simp [hnil] at ht,hws,ht⟩
    have hwords : words isBlank text = (words isBlank text).take 13 := by
      conv_lhs => rw [← words_cons_delim text (show isBlank 32 by decide),← ht]
      exact words_spaced (by decide) hws
    have hlen := congrArg List.length hwords
    rw [List.length_take] at hlen
    have h13 : (words isBlank text).length ≠ 13 := fun h => ho ⟨h,endsInWord_singleSpaced hs⟩
    exact ⟨hs,by omega⟩

/-- The setting of a value that is sent in words is the setting of the value exactly if the words
give the value back. -/
theorem setRequest_eq_iff (id name text : Bytes) (ws : List Bytes) :
    setRequest id name ws = settingText id name text ↔ spaced 32 ws = 32 :: text := by
  have hset : setRequest id name ws = (ascii "SET_NETWORK " ++ id ++ 32 :: name) ++ spaced 32 ws := by
    simp [setRequest,ascii]
  have htext : settingText id name text =
      (ascii "SET_NETWORK " ++ id ++ 32 :: name) ++ 32 :: text := by simp [settingText]
  rw [hset,htext,List.append_cancel_left_eq]

theorem exists_cons_four {α : Type*} {l : List α} (h : 4 ≤ l.length) :
    ∃ a b c d rest, l = a :: b :: c :: d :: rest := by
  obtain ⟨a,l,rfl⟩ := List.exists_cons_of_length_pos (show 0 < l.length by omega)
  rw [List.length_cons] at h
  obtain ⟨b,l,rfl⟩ := List.exists_cons_of_length_pos (show 0 < l.length by omega)
  rw [List.length_cons] at h
  obtain ⟨c,l,rfl⟩ := List.exists_cons_of_length_pos (show 0 < l.length by omega)
  rw [List.length_cons] at h
  obtain ⟨d,l,rfl⟩ := List.exists_cons_of_length_pos (show 0 < l.length by omega)
  exact ⟨a,b,c,d,l,rfl⟩

section Configure
variable {D : Daemon} {m : Machine} {cfg : BuildConfig} {w : Wrapper D} {conn : Conn D}
  (h : On w conn) {id : Bytes} (hi : IdText id) {config : WifiConfig} {ssid : CString}
  (hs : config.ssidText = some ssid)
include h hi hs

variable (cfg) in
/-- With WEP and texts that have words, the four requests of the settings are sent as long as
each one is accepted. -/
theorem configure_accepted {password : CString} (hp : m.stringAt config.password = some password)
    (h0 : config.flag = 0)
    (ho : ¬ Overfills kMaxArgs (setNetworkCmd id (ascii "ssid") ssid.bytes).bytes)
    (ho' : ¬ Overfills kMaxArgs (setNetworkCmd id (ascii "wep_key0") password.bytes).bytes)
    (hne : valueWords id (ascii "ssid") ssid.bytes ≠ [])
    (hne' : valueWords id (ascii "wep_key0") password.bytes ≠ []) (hidle : conn.Idle (takes 1))
    (henv : ∀ d ∈ conn.env, ∃ c, Link.Answers c d) (hlen : 4 ≤ conn.env.length) :
    ∃ w' connected conn' new, configureNetwork m cfg w config id = .ok (w',connected) ∧ On w' conn' ∧
      Link.Sends (takes 1) (NetworkRequest id) conn conn' ∧ conn'.done = conn.done ++ new ∧
      (Accepted new → connected = true ∧ new.map Prod.fst =
        [setRequest id (ascii "ssid") (valueWords id (ascii "ssid") ssid.bytes),
          setRequest id (ascii "key_mgmt") [ascii "NONE"],
          setRequest id (ascii "wep_key0") (valueWords id (ascii "wep_key0") password.bytes),
          ascii "ENABLE_NETWORK" ++ 32 :: id]) := by
  obtain ⟨d₁,d₂,d₃,d₄,env,he⟩ := exists_cons_four hlen
  obtain ⟨c₁,hc₁⟩ := henv d₁ (by simp [he])
  obtain ⟨c₂,hc₂⟩ := henv d₂ (by simp [he])
  obtain ⟨c₃,hc₃⟩ := henv d₃ (by simp [he])
  obtain ⟨c₄,hc₄⟩ := henv d₄ (by simp [he])
  obtain ⟨w₁,ret₁,conn₁,r₁,hr₁,hon₁,hs₁,hi₁,he₁,-,hd₁,hok₁⟩ :=
    set_answered cfg h hi hidle he hc₁ ssid_name ssid.noNul ho hne
  have hr₁ : setSsid cfg w id ssid = .ok (w₁,ret₁) := hr₁
  have hkey := keyMgmt_words hi
  obtain ⟨w₂,ret₂,conn₂,r₂,hr₂,hon₂,hs₂,hi₂,he₂,-,hd₂,hok₂⟩ :=
    set_answered cfg hon₁ hi hi₁ he₁ hc₂ keyMgmt_name (by decide) hkey.1 (by rw [hkey.2]; simp)
  obtain ⟨w₃,ret₃,conn₃,r₃,hr₃,hon₃,hs₃,hi₃,he₃,-,hd₃,hok₃⟩ :=
    set_answered cfg hon₂ hi hi₂ he₂ hc₃ wepKey_name password.noNul ho' hne'
  obtain ⟨w₄,ret₄,conn₄,r₄,hr₄,hon₄,hs₄,hd₄,hok₄⟩ := enable_answered cfg hon₃ hi hi₃ he₃ hc₄
  rw [hkey.2] at hd₂
  have hd₂ := hd₂.trans (congrArg (· ++ _) hd₁)
  have hd₃ := hd₃.trans (congrArg (· ++ _) hd₂)
  have hd₄ := hd₄.trans (congrArg (· ++ _) hd₃)
  simp only [List.append_assoc,List.cons_append,List.nil_append] at hd₂ hd₃ hd₄
  -- The first setting that is not accepted ends the run.
  by_cases z₁ : ret₁ = 0
  swap
  · refine ⟨w₁,false,conn₁,_,?_,hon₁,hs₁,hd₁,fun ha => absurd (hok₁ ?_) z₁⟩
    · simp [configureNetwork,hs,hr₁,z₁,bind,Except.bind,pure,Except.pure]
    · exact ha _ (.head _) (.inl rfl)
  by_cases z₂ : ret₂ = 0
  swap
  · refine ⟨w₂,false,conn₂,_,?_,hon₂,hs₁.trans hs₂,hd₂,fun ha => absurd (hok₂ ?_) z₂⟩
    · simp [configureNetwork,hs,hr₁,z₁,setPassword,h0,hr₂,z₂,bind,Except.bind,pure,Except.pure]
    · exact ha _ (.tail _ (.head _)) (.inl rfl)
  by_cases z₃ : ret₃ = 0
  swap
  · refine ⟨w₃,false,conn₃,_,?_,hon₃,(hs₁.trans hs₂).trans hs₃,hd₃,fun ha => absurd (hok₃ ?_) z₃⟩
    · simp [configureNetwork,hs,hr₁,z₁,setPassword,h0,hr₂,z₂,hp,hr₃,z₃,bind,Except.bind,pure,
        Except.pure]
    · exact ha _ (.tail _ (.tail _ (.head _))) (.inl rfl)
  refine ⟨w₄,ret₄ == 0,conn₄,_,?_,hon₄,((hs₁.trans hs₂).trans hs₃).trans hs₄,hd₄,fun ha => ⟨?_,rfl⟩⟩
  · simp [configureNetwork,hs,hr₁,z₁,setPassword,h0,hr₂,z₂,hp,hr₃,z₃,hr₄,bind,Except.bind,pure,
      Except.pure]
  · have z₄ := hok₄ (ha _ (.tail _ (.tail _ (.tail _ (.head _)))) (.inr rfl))
    simp [z₄]

omit hs in
/-- A password that is set can be read, and is one for WEP. -/
theorem password_succeeded {flag : ℤ} {password : UInt8} (h1 : flag ≠ 1) {w' : Wrapper D}
    (hr : setPassword m cfg w id flag password = .ok (w',0)) : flag = 0 ∧
      ∃ text, m.stringAt password = some text ∧ valueWords id (ascii "wep_key0") text.bytes ≠ [] := by
  unfold setPassword at hr
  by_cases h0 : flag = 0
  · rw [if_pos h0] at hr
    obtain ⟨⟨w₁,ret₁⟩,hr₁,hr⟩ := bind_ok hr
    by_cases z₁ : ret₁ = 0
    · rw [z₁] at hr₁
      obtain ⟨-,hon₁,-⟩ := set_succeeded h hi keyMgmt_name (by decide) hr₁
      simp only [z₁,ne_eq,not_true_eq_false,if_false] at hr
      cases ht : m.stringAt password with
      | none =>
        rw [ht] at hr
        cases hr
      | some text =>
        rw [ht] at hr
        exact ⟨h0,text,rfl,(set_succeeded hon₁ hi wepKey_name text.noNul hr).1⟩
    · simp only [ne_eq,z₁,not_false_eq_true,if_true] at hr
      cases hr
  · rw [if_neg h0,if_neg h1] at hr
    cases hr

/-- Settings that all succeed are those of WEP, with texts that have words. -/
theorem configure_connected (hfit : ConfigFits m id config) {w' : Wrapper D}
    (hc : configureNetwork m cfg w config id = .ok (w',true)) :
    config.flag = 0 ∧ valueWords id (ascii "ssid") ssid.bytes ≠ [] ∧
      ∃ password, m.stringAt config.password = some password ∧
        valueWords id (ascii "wep_key0") password.bytes ≠ [] := by
  simp only [configureNetwork,hs] at hc
  obtain ⟨⟨w₁,ret₁⟩,hr₁,hc⟩ := bind_ok hc
  by_cases z₁ : ret₁ = 0
  swap
  · simp only [ne_eq,z₁,not_false_eq_true,if_true] at hc
    cases hc
  rw [z₁] at hr₁
  obtain ⟨hne,hon₁,-⟩ := set_succeeded h hi ssid_name ssid.noNul hr₁
  simp only [z₁,ne_eq,not_true_eq_false,if_false] at hc
  obtain ⟨⟨w₂,ret₂⟩,hr₂,hc⟩ := bind_ok hc
  by_cases z₂ : ret₂ = 0
  swap
  · simp only [z₂,not_false_eq_true,if_true] at hc
    cases hc
  rw [z₂] at hr₂
  obtain ⟨ssid',hssid',-,hflag⟩ := hfit
  rw [hs] at hssid'
  cases hssid'
  have hwords := (valueWords_ssid_ne_nil hi hs).mp hne
  obtain ⟨h0,hpassword⟩ := password_succeeded hon₁ hi (hflag hwords).1 hr₂
  exact ⟨h0,hne,hpassword⟩

end Configure

/-- A value that fits its command is set as it is exactly if it is sendable. -/
theorem sendable_iff_setRequest {id name value : Bytes} (hi : IdText id)
    (hname : IsWord isBlank name ∧ 0 ∉ name ∧ name.length < 16) (hv : 0 ∉ value)
    (hpart : valuePart id name value = value) : Sendable value ↔
      ¬ Overfills kMaxArgs (setNetworkCmd id name value).bytes ∧ valueWords id name value ≠ [] ∧
        setRequest id name (valueWords id name value) = settingText id name value := by
  rw [sendable_iff,setNetworkCmd_overfills hi hname hv,hpart,setRequest_eq_iff,valueWords,hpart]
  refine ⟨fun h => ⟨h.1,fun hnil => ?_,h.2⟩,fun h => ⟨h.1,h.2.2⟩⟩
  have ht := h.2
  rw [hnil] at ht
  cases ht

/-- Only settings count, and the refusal of every request with `OK` accepts them all. -/
theorem accepted_accepting {q : Bytes} (nets : Networks F) (hq : IsSetting q) :
    (ctrlIfaceProcess accepting nets q).2 = okReply := by
  rcases hq with hq | hq
  · obtain ⟨cmd,rfl⟩ := List.isPrefixOf_iff_prefix.mp hq
    rw [process_set]
    rfl
  · obtain ⟨cmd,rfl⟩ := List.isPrefixOf_iff_prefix.mp hq
    rw [process_enable]
    rfl

/-- What is answered in this circumstance is no message to the client. -/
theorem takes_accepting (q : Bytes) (nets : Networks F) :
    takes 1 (ctrlIfaceProcess accepting nets q).2 = true := by
  have hanswer : ∀ result : Option (Networks F), takes 1 (answerTo nets result).2 = true := by
    intro result
    cases result with
    | none => exact (by decide : takes 1 failReply = true)
    | some nets' => exact (by decide : takes 1 okReply = true)
  have hok : takes 1 okReply = true := by decide
  unfold ctrlIfaceProcess
  dsimp only
  split_ifs
  · exact hok
  · exact hanswer _
  · exact (by decide : takes 1 failReply = true)
  · rename_i hadd
    exact absurd rfl hadd
  · exact hanswer _
  · exact hok
  · rfl

/-- If every setting is answered with `OK`, then the promise holds for the call. -/
theorem accepted_of_sends {conn₁ M : Conn (anySupplicant F)} {id : Bytes}
    {base listed : List (Bytes × Bytes)} (hprompt : Link.Prompt (takes 1) (· = accepting) conn₁)
    (hdone : conn₁.done = base ++ listed) (hlisted : ∀ p ∈ listed, ¬ IsSetting p.1)
    (hsends : Link.Sends (takes 1) (NetworkRequest id) conn₁ M) :
    Accepted (M.done.drop base.length) := by
  obtain ⟨-,new,hnew,hall⟩ := hsends.prompt (skips_takes Nat.one_pos) hprompt
  rw [hnew,hdone,List.append_assoc,List.drop_left]
  intro p hp hset
  rcases List.mem_append.mp hp with hp | hp
  · exact absurd hset (hlisted p hp)
  · obtain ⟨-,c,s,rfl,hreply⟩ := hall p hp
    exact hreply.trans (accepted_accepting s hset)

/-- Of these requests `add_network` and its hidden exchange send none about a network. -/
theorem targeted_listed {listed : List (Bytes × Bytes)}
    (hlisted : ∀ p ∈ listed, p.1 = ascii "LIST_NETWORKS") (requests : List Bytes) :
    (ascii "ADD_NETWORK" :: (listed.map Prod.fst ++ requests)).filter (fun q => (target q).isSome) =
      requests.filter fun q => (target q).isSome := by
  have hnone : (listed.map Prod.fst).filter (fun q => (target q).isSome) = [] := by
    rw [List.filter_eq_nil_iff]
    intro q hq
    obtain ⟨p,hp,rfl⟩ := List.mem_map.mp hq
    rw [hlisted p hp]
    decide
  rw [List.filter_cons_of_neg (by decide),List.filter_append,hnone,List.nil_append]

section Late
variable {m : Machine} {cfg : BuildConfig} {w w₁ : Wrapper (anySupplicant F)} {config : WifiConfig}
  {id : Bytes} (hadd : addNetwork cfg w [] = .ok (w₁,id,0)) (hi : IdText id)
include hadd hi

/-- The rollback behind an outstanding request, whose answer comes first. -/
theorem connect_behind {w₂ : Wrapper (anySupplicant F)} {conn₂ : Conn (anySupplicant F)}
    (h₂ : On w₂ conn₂) {q : Bytes} (hlone : conn₂.Lone (takes 1) q)
    {env : List (Delivery (anySupplicant F).server)}
    (he : conn₂.env = List.replicate 3 (Link.atOnce accepting) ++ env)
    (hc : configureNetwork m cfg w₁ config id = .ok (w₂,false)) :
    ∃ w' conn' r₁ r₂, connectWifi m cfg w config = .ok (w',-1) ∧ w'.ctrlConn = some conn' ∧
      conn'.waiting = [ascii "LIST_NETWORKS"] ∧
      conn'.done = conn₂.done ++ [(q,(ctrlIfaceProcess accepting conn₂.server q).2),
        (ascii "DISABLE_NETWORK" ++ 32 :: id,r₁),(removeRequest id,r₂)] := by
  obtain ⟨w',hr,hon⟩ := connect_failed hadd hi h₂ hc
  obtain ⟨hlone₃,he₃,-,hd₃,-⟩ := hlone.exchange_atOnce he (takes_accepting q conn₂.server)
    (ascii "DISABLE_NETWORK" ++ 32 :: id)
  obtain ⟨hlone₄,he₄,-,hd₄,-⟩ := hlone₃.exchange_atOnce he₃ (takes_accepting _ _) (removeRequest id)
  obtain ⟨hlone₅,-,-,hd₅,-⟩ := hlone₄.exchange_atOnce he₄ (takes_accepting _ _) (ascii "LIST_NETWORKS")
  rw [hd₄,hd₃,List.append_assoc,List.append_assoc] at hd₅
  exact ⟨w',_,_,_,hr,hon.connected,hlone₅.last,hd₅⟩

/-- The setting of the SSID gets the answer to the hidden request, which is no `OK`. -/
theorem connect_late {conn₁ : Conn (anySupplicant F)} (h₁ : On w₁ conn₁)
    (hlone : conn₁.Lone (takes 1) (ascii "LIST_NETWORKS"))
    (he : conn₁.env = List.replicate 7 (Link.atOnce accepting)) {ssid : CString}
    (hs : config.ssidText = some ssid) : (∃ fault, connectWifi m cfg w config = .error fault) ∨
      ∃ w' conn' new, connectWifi m cfg w config = .ok (w',-1) ∧ w'.ctrlConn = some conn' ∧
        conn'.waiting = [ascii "LIST_NETWORKS"] ∧ conn'.done = conn₁.done ++ new ∧ Accepted new := by
  have hlist : ¬ IsSetting (ascii "LIST_NETWORKS") := by decide
  have hdisable : ¬ IsSetting (ascii "DISABLE_NETWORK" ++ 32 :: id) := by rintro (h | h) <;> cases h
  have hremove : ¬ IsSetting (removeRequest id) := by rintro (h | h) <;> cases h
  obtain ⟨hfault,hquiet,hask⟩ := set_step cfg h₁ hi ssid_name ssid.noNul
  by_cases ho : Overfills kMaxArgs (setNetworkCmd id (ascii "ssid") ssid.bytes).bytes
  · obtain ⟨fault,hf⟩ := configure_ssid_faults cfg h₁ (m := m) fun ssid' hs' => by
      rw [hs] at hs'
      cases hs'
      exact ho
    exact .inl ⟨fault,connect_faults hadd hf⟩
  right
  by_cases hnil : valueWords id (ascii "ssid") ssid.bytes = []
  · obtain ⟨w₂,hr,h₂⟩ := hquiet ho hnil
    have hr : setSsid cfg w₁ id ssid = .ok (w₂,-1) := hr
    have hc : configureNetwork m cfg w₁ config id = .ok (w₂,false) := by
      simp only [configureNetwork,hs,hr]
      rfl
    obtain ⟨w',conn',r₁,r₂,hwifi,hconn,hw,hd⟩ := connect_behind hadd hi h₂ hlone
      (show conn₁.env = _ ++ List.replicate 4 (Link.atOnce accepting) from he) hc
    refine ⟨w',conn',_,hwifi,hconn,hw,hd,?_⟩
    intro p hp hset
    simp only [List.mem_cons,List.not_mem_nil,or_false] at hp
    rcases hp with rfl | rfl | rfl
    · exact absurd hset hlist
    · exact absurd hset hdisable
    · exact absurd hset hremove
  · obtain ⟨w₂,ret,hr,h₂,hret⟩ := hask ho hnil
    have hr : setSsid cfg w₁ id ssid = .ok (w₂,ret) := hr
    obtain ⟨hlone₂,he₂,-,hd₂,hgot⟩ := hlone.exchange_atOnce he (takes_accepting _ _)
      (setRequest id (ascii "ssid") (valueWords id (ascii "ssid") ssid.bytes))
    have hne : ret ≠ 0 := by
      rw [ne_eq,hret,hgot]
      rintro ⟨r,hr,hok⟩
      cases hr
      cases hok
    have hc : configureNetwork m cfg w₁ config id = .ok (w₂,false) := by
      simp only [configureNetwork,hs,hr]
      exact if_pos hne
    obtain ⟨w',conn',r₁,r₂,hwifi,hconn,hw,hd⟩ := connect_behind hadd hi h₂ hlone₂
      (show _ = _ ++ List.replicate 3 (Link.atOnce accepting) from he₂) hc
    rw [hd₂,List.append_assoc] at hd
    refine ⟨w',conn',_,hwifi,hconn,hw,hd,?_⟩
    intro p hp hset
    simp only [List.cons_append,List.nil_append,List.mem_cons,List.not_mem_nil,or_false] at hp
    rcases hp with rfl | rfl | rfl | rfl
    · exact absurd hset hlist
    · exact accepted_accepting _ hset
    · exact absurd hset hdisable
    · exact absurd hset hremove

end Late

section Success
variable {m : Machine} {cfg : BuildConfig} {w : Wrapper (anySupplicant F)}
  {conn : Conn (anySupplicant F)} (h : On w conn) (hidle : conn.Idle (takes 1))
  (hid : nextId conn.server < 2^31) {hidden : Delivery (anySupplicant F).server}
include h hidle hid

variable (cfg) in
/-- The network is added, and nothing is outstanding after the hidden request. -/
theorem added_listed {d : Delivery (anySupplicant F).server} {c : AnyCircumstance}
    (hd : Link.Answers c d) (hc : c.refusal = none)
    (hhidden : hidden.sent → (Link.served hidden.acts).isSome)
    {env : List (Delivery (anySupplicant F).server)} (henv : ∀ d' ∈ env, ∃ c', Link.Answers c' d') :
    ∃ (w₁ : Wrapper (anySupplicant F)) (conn₁ : Conn (anySupplicant F)) (listed : List (Bytes × Bytes)),
      addNetwork cfg (w.withEnv (d :: hidden :: env)) [] = .ok (w₁,idReply (nextId conn.server),0) ∧
      On w₁ conn₁ ∧ conn₁.Idle (takes 1) ∧ conn₁.env = env ∧
      conn₁.done = conn.done ++ (ascii "ADD_NETWORK",idReply (nextId conn.server)) :: listed ∧
      ∀ p ∈ listed, p.1 = ascii "LIST_NETWORKS" := by
  obtain ⟨w₁,conn₁,hadd,hon₁,hidle₁,henv₁,-,hdone⟩ := addNetwork_read cfg (h.withEnv _)
    (idle_withEnv hidle (d :: hidden :: env)) rfl hd.1 hd.2 hid
  have hreply : addReply c conn.server = idReply (nextId conn.server) := by
    rw [addReply_eq c hid,hc]
    rfl
  rw [hreply] at hadd hdone
  have hsettles : Link.Settles conn₁.env := by
    rw [henv₁]
    intro d' hd' hsent
    rcases List.mem_cons.mp hd' with rfl | hd'
    · exact hhidden hsent
    · obtain ⟨c',hc'⟩ := henv d' hd'
      rw [hc'.2]
      rfl
  obtain ⟨hidle₂,-⟩ := hidle₁.settle (skips_takes Nat.one_pos) hsettles (ascii "LIST_NETWORKS")
  have henv₂ := (Link.exchange_sent (takes 1) (ascii "LIST_NETWORKS") conn₁).1
  rw [henv₁] at henv₂
  rcases hidle₁.exchange_cases (skips_takes Nat.one_pos) (ascii "LIST_NETWORKS") with
    ⟨-,hdone₂,-⟩ | ⟨c',-,hdone₂,-⟩
  · exact ⟨w₁,_,[],hadd,hon₁,hidle₂,henv₂,hdone₂.trans hdone,by simp⟩
  · rw [hdone,List.append_assoc] at hdone₂
    exact ⟨w₁,_,_,hadd,hon₁,hidle₂,henv₂,hdone₂,by simp⟩

omit h hid in
/-- What the call has sent, once everything is served. -/
theorem sent_of_done {conn' : Conn (anySupplicant F)} (hidle' : conn'.Idle (takes 1))
    {new : List (Bytes × Bytes)} (hd : conn'.done = conn.done ++ new) :
    conn'.sent.drop conn.sent.length = new.map Prod.fst := by
  rw [hidle.sent_length,Link.sent,hidle'.settled,hd]
  simp

variable {config : WifiConfig} {ssid : CString} (hs : config.ssidText = some ssid)
  (hbuf : config.flag = 0 → ∀ password, m.stringAt config.password = some password →
    (ascii "set_network " ++ idReply (nextId conn.server) ++
      32 :: ascii "wep_key0" ++ 32 :: password.bytes).length < 256)
include hs hbuf

omit h hidle hid hs in
/-- A password that fits its command reaches it whole. -/
theorem valuePart_password (h0 : config.flag = 0) {password : CString}
    (hp : m.stringAt config.password = some password) :
    valuePart (idReply (nextId conn.server)) (ascii "wep_key0") password.bytes = password.bytes := by
  have hlen := hbuf h0 password hp
  have h8 : (ascii "wep_key0").length = 8 := by decide
  have h12 : (ascii "set_network ").length = 12 := by decide
  simp only [List.length_append,List.length_cons,h8,h12] at hlen
  rw [valuePart,h8]
  exact List.take_of_length_le (by omega)

theorem connectsProperly_of_sendable (hhidden : hidden.sent → (Link.served hidden.acts).isSome)
    (h0 : config.flag = 0) (hssid : Sendable ssid.bytes) {password : CString}
    (hp : m.stringAt config.password = some password) (hpassword : Sendable password.bytes) :
    ConnectsProperly m cfg w conn config ssid hidden := by
  intro arg d c env hd hc hlen henv
  obtain ⟨w₁,conn₁,listed,hadd,hon₁,hidle₁,henv₁,hdone₁,hlisted⟩ :=
    added_listed cfg h hidle hid hd hc hhidden henv
  have hi := idReply_idText ⟨by linarith [(nextId_fresh conn.server).2],hid⟩
  obtain ⟨ho,hne,hset⟩ :=
    (sendable_iff_setRequest hi ssid_name ssid.noNul (valuePart_ssid hi hs)).mp hssid
  obtain ⟨ho',hne',hset'⟩ := (sendable_iff_setRequest hi wepKey_name password.noNul
    (valuePart_password hbuf h0 hp)).mp hpassword
  obtain ⟨w₂,connected,conn₂,new,hconf,hon₂,hsends,hdone₂,hacc⟩ := configure_accepted cfg
    (m := { m with missingArg := arg }) hon₁ hi hs hp h0 ho ho' hne hne' hidle₁ (henv₁ ▸ henv)
    (henv₁ ▸ (by decide : 4 ≤ 7).trans hlen)
  have hkey : setRequest (idReply (nextId conn.server)) (ascii "key_mgmt") [ascii "NONE"] =
      settingText (idReply (nextId conn.server)) (ascii "key_mgmt") (ascii "NONE") :=
    (setRequest_eq_iff _ _ _ _).mpr rfl
  rw [hdone₁,List.append_assoc] at hdone₂
  cases connected with
  | true =>
    refine ⟨w₂,0,conn₂,connect_succeeded hadd hconf,hon₂.connected,fun _ ha => ⟨rfl,?_⟩⟩
    obtain ⟨hprompt,-⟩ := hsends.prompt (skips_takes Nat.one_pos) (C := fun _ => True)
      ⟨hidle₁,fun d hd => by
        obtain ⟨c',hc'⟩ := henv d (henv₁ ▸ hd)
        exact ⟨c',trivial,hc'⟩⟩
    rw [hdone₂,List.drop_left] at ha
    obtain ⟨-,hnew⟩ := hacc fun p hp => ha p (List.mem_append_right _ hp)
    rw [sent_of_done hidle hprompt.idle hdone₂,List.map_append,hnew,hset,hset',hkey,passwordText,hp,
      connectRequests,credentialRequests,if_pos h0]
    rw [List.map_cons,List.cons_append]
    refine ⟨targeted_listed hlisted _,fun q hq => ?_⟩
    · rw [List.mem_cons,List.mem_append] at hq
      rcases hq with rfl | hq | hq
      · exact ⟨rfl,rfl⟩
      · obtain ⟨p,hp,rfl⟩ := List.mem_map.mp hq
        rw [hlisted p hp]
        exact ⟨rfl,rfl⟩
      · simp only [List.mem_cons,List.not_mem_nil,or_false] at hq
        rcases hq with rfl | rfl | rfl | rfl <;> exact ⟨rfl,rfl⟩
  | false =>
    obtain ⟨w',hwifi,hon'⟩ := connect_failed hadd hi hon₂ hconf
    refine ⟨w',-1,_,hwifi,hon'.connected,fun _ ha => ?_⟩
    have hrest : Link.Sends (takes 1) (NetworkRequest (idReply (nextId conn.server))) conn₂ _ :=
      ((Link.Sends.refl.step .disable).step .remove).step .list
    obtain ⟨more,hmore⟩ := hrest.done
    rw [← hmore,hdone₂,List.append_assoc,List.append_assoc,List.drop_left] at ha
    have hfalse := (hacc fun p hp => ha p (List.mem_append_right _ (List.mem_append_left _ hp))).1
    cases hfalse

omit h hidle hid hs hbuf in
theorem accepting_answers : ∀ d ∈ List.replicate 7 (Link.atOnce (S := (anySupplicant F).server) accepting),
    ∃ c, Link.Answers c d :=
  fun d hd => ⟨accepting,by rw [List.eq_of_mem_replicate hd]; exact ⟨rfl,rfl⟩⟩

omit hs hbuf in
/-- A hidden request that is still outstanding gives its answer to the setting of the SSID, and the
call fails although every setting is answered with `OK`. -/
theorem ConnectsProperly.hidden_served (hssid : config.ssidText = some ssid)
    (hc : ConnectsProperly m cfg w conn config ssid hidden) (hsent : hidden.sent) :
    (Link.served hidden.acts).isSome := by
  by_contra hserved
  have hserved : Link.served hidden.acts = none := by simpa using hserved
  have hi := idReply_idText ⟨by linarith [(nextId_fresh conn.server).2],hid⟩
  have hrange := List.length_replicate (n := 7) (a := Link.atOnce (S := (anySupplicant F).server) accepting)
  obtain ⟨w',ret,conn',hrun,hconn,hgood⟩ := hc m.missingArg (Link.atOnce performing) performing
    (List.replicate 7 (Link.atOnce accepting)) ⟨rfl,rfl⟩ rfl hrange.ge accepting_answers
  obtain ⟨w₁,conn₁,hadd,hon₁,hidle₁,henv₁,-,hdone⟩ := addNetwork_read cfg (h.withEnv _)
    (idle_withEnv hidle (Link.atOnce performing :: hidden :: List.replicate 7 (Link.atOnce accepting)))
    rfl rfl rfl hid
  have hlist := hidle₁.exchange (skips_takes Nat.one_pos) (ascii "LIST_NETWORKS")
  rw [Link.sending_of_env henv₁,if_pos hsent] at hlist
  have hlist : Link.Answered _ _ _ _ hidden.acts _ := hlist
  simp only [Link.Answered,hserved] at hlist
  obtain ⟨hlone,-,hdone₂,-⟩ := hlist
  have henv₂ := (Link.exchange_sent (takes 1) (ascii "LIST_NETWORKS") conn₁).1
  rw [henv₁] at henv₂
  have hrun : connectWifi m cfg (w.withEnv (Link.atOnce performing :: hidden ::
    List.replicate 7 (Link.atOnce accepting))) config = .ok (w',ret) := hrun
  rcases connect_late hadd (addReply_idText performing hid) hon₁ hlone henv₂ hssid (m := m) with
    ⟨fault,hf⟩ | ⟨w₂,conn₂,new,hwifi,hconn₂,hw,hd,haccepted⟩
  · rw [hf] at hrun
    cases hrun
  · rw [hwifi] at hrun
    cases hrun
    rw [hconn₂] at hconn
    cases hconn
    have hadded : ¬ IsSetting (ascii "ADD_NETWORK") := by decide
    have ha : Accepted (conn'.done.drop conn.done.length) := by
      rw [hd,hdone₂,hdone,List.append_assoc,List.drop_left]
      intro p hp hset
      rcases List.mem_cons.mp hp with rfl | hp
      · exact absurd hset hadded
      · exact haccepted p hp hset
    cases (hgood (by rw [hw]; decide) ha).1

theorem ConnectsProperly.sendable (hc : ConnectsProperly m cfg w conn config ssid hidden)
    (hhidden : hidden.sent → (Link.served hidden.acts).isSome) :
    config.flag = 0 ∧ Sendable ssid.bytes ∧
      ∃ password, m.stringAt config.password = some password ∧ Sendable password.bytes := by
  have hlen := List.length_replicate (n := 7) (a := Link.atOnce (S := (anySupplicant F).server) accepting)
  obtain ⟨w₁,conn₁,listed,hadd,hon₁,hidle₁,henv₁,hdone₁,hlisted⟩ :=
    added_listed cfg h hidle hid (d := Link.atOnce performing) (c := performing) ⟨rfl,rfl⟩ rfl hhidden
      accepting_answers
  have hi := idReply_idText ⟨by linarith [(nextId_fresh conn.server).2],hid⟩
  obtain ⟨w',ret,conn',hrun,hconn,hgood⟩ := hc none (Link.atOnce performing) performing _ ⟨rfl,rfl⟩
    rfl hlen.ge accepting_answers
  have hfit : ConfigFits m (idReply (nextId conn.server)) config := by
    by_contra hfit
    obtain ⟨fault,hf⟩ := configure_faults cfg hon₁ hi hfit hidle₁ (c := accepting) henv₁
      (by rintro s q ⟨name,value,rfl⟩; rfl)
    rw [connect_faults hadd hf] at hrun
    cases hrun
  have hprompt : Link.Prompt (takes 1) (· = accepting) conn₁ := by
    refine ⟨hidle₁,fun d hd => ⟨accepting,rfl,?_⟩⟩
    rw [henv₁] at hd
    rw [List.eq_of_mem_replicate hd]
    exact ⟨rfl,rfl⟩
  have hplain : ∀ p ∈ (ascii "ADD_NETWORK",idReply (nextId conn.server)) :: listed,
      ¬ IsSetting p.1 := by
    intro p hp
    rcases List.mem_cons.mp hp with rfl | hp
    · exact (by decide : ¬ IsSetting (ascii "ADD_NETWORK"))
    · rw [hlisted p hp]
      decide
  have haccepted : ∀ {M}, Link.Sends (takes 1) (NetworkRequest (idReply (nextId conn.server))) conn₁ M →
      Accepted (M.done.drop conn.done.length) := accepted_of_sends hprompt hdone₁ hplain
  obtain ⟨w₂,connected,conn₂,hconf,hon₂,hsends⟩ :=
    configure_runs cfg hon₁ hi (m := { m with missingArg := none }) hfit
  cases connected with
  | false =>
    obtain ⟨w₃,hwifi,hon₃⟩ := connect_failed hadd hi hon₂ hconf
    rw [hwifi] at hrun
    cases hrun
    rw [hon₃.connected] at hconn
    cases hconn
    have hs' := ((hsends.step .disable).step .remove).step .list
    have hsettled := (hs'.prompt (skips_takes Nat.one_pos) hprompt).1.idle.settled
    cases (hgood (by rw [hsettled]; simp) (haccepted hs')).1
  | true =>
    obtain ⟨h0,hne,password,hp,hne'⟩ := configure_connected hon₁ hi hs
      (m := { m with missingArg := none }) hfit hconf
    obtain ⟨ssid',hssid',ho,hflag⟩ := hfit
    rw [hs] at hssid'
    cases hssid'
    have hwords := (valueWords_ssid_ne_nil hi hs).mp hne
    obtain ⟨password',hp',ho'⟩ := (hflag hwords).2 h0
    have hp : m.stringAt config.password = some password := hp
    rw [hp] at hp'
    cases hp'
    obtain ⟨w₃,connected,conn₃,new,hconf',hon₃,hsends',hdone₃,hacc⟩ := configure_accepted cfg hon₁ hi hs
      (m := { m with missingArg := none }) hp h0 ho ho' hne hne' hidle₁ (henv₁ ▸ accepting_answers)
      (henv₁ ▸ (by decide : 4 ≤ 7).trans hlen.ge)
    rw [connect_succeeded hadd hconf] at hrun
    cases hrun
    rw [hconf] at hconf'
    cases hconf'
    rw [hon₃.connected] at hconn
    cases hconn
    have hidle₃ := (hsends'.prompt (skips_takes Nat.one_pos) hprompt).1.idle
    have ha := haccepted hsends'
    obtain ⟨-,hrequests,-⟩ := hgood (by rw [hidle₃.settled]; simp) ha
    rw [hdone₁,List.append_assoc] at hdone₃
    rw [hdone₃,List.drop_left] at ha
    have hnew := (hacc fun p hp => ha p (List.mem_append_right _ hp)).2
    rw [sent_of_done hidle hidle₃ hdone₃,List.map_append,hnew,List.map_cons,List.cons_append,
      targeted_listed hlisted,passwordText,hp,connectRequests,credentialRequests,
      if_pos h0] at hrequests
    -- all four requests are about a network
    have hsame : [setRequest (idReply (nextId conn.server)) (ascii "ssid") _,
          setRequest (idReply (nextId conn.server)) (ascii "key_mgmt") [ascii "NONE"],
          setRequest (idReply (nextId conn.server)) (ascii "wep_key0") _,
          ascii "ENABLE_NETWORK" ++ 32 :: idReply (nextId conn.server)] =
        [settingText (idReply (nextId conn.server)) (ascii "ssid") ssid.bytes,
          settingText (idReply (nextId conn.server)) (ascii "key_mgmt") (ascii "NONE"),
          settingText (idReply (nextId conn.server)) (ascii "wep_key0") password.bytes,
          ascii "ENABLE_NETWORK " ++ idReply (nextId conn.server)] := hrequests
    obtain ⟨hssid,hrest⟩ := List.cons_eq_cons.mp hsame
    obtain ⟨-,hrest⟩ := List.cons_eq_cons.mp hrest
    obtain ⟨hkey,-⟩ := List.cons_eq_cons.mp hrest
    exact ⟨h0,(sendable_iff_setRequest hi ssid_name ssid.noNul (valuePart_ssid hi hs)).mpr
      ⟨ho,hne,hssid⟩,password,hp,(sendable_iff_setRequest hi wepKey_name password.noNul
        (valuePart_password hbuf h0 hp)).mpr ⟨ho',hne',hkey⟩⟩

end Success

/-- A call connects as documented exactly for WEP, with an SSID and a readable password of
single-spaced words, not more than twelve of each, if the hidden request is not left outstanding. -/
theorem connectsProperly_iff (m : Machine) (cfg : BuildConfig) {w : Wrapper (anySupplicant F)}
    {conn : Conn (anySupplicant F)} (h : On w conn) (hidle : conn.Idle (takes 1))
    (hid : nextId conn.server < 2^31) {config : WifiConfig} {ssid : CString}
    (hs : config.ssidText = some ssid)
    (hbuf : config.flag = 0 → ∀ password, m.stringAt config.password = some password →
      (ascii "set_network " ++ idReply (nextId conn.server) ++
        32 :: ascii "wep_key0" ++ 32 :: password.bytes).length < 256)
    (hidden : Delivery (anySupplicant F).server) :
    ConnectsProperly m cfg w conn config ssid hidden ↔
      (hidden.sent → (Link.served hidden.acts).isSome) ∧ config.flag = 0 ∧ Sendable ssid.bytes ∧
        ∃ password, m.stringAt config.password = some password ∧ Sendable password.bytes := by
  constructor
  · intro hc
    have hhidden := hc.hidden_served h hidle hid hs
    exact ⟨hhidden,hc.sendable h hidle hid hs hbuf hhidden⟩
  · rintro ⟨hhidden,h0,hssid,password,hp,hpassword⟩
    exact connectsProperly_of_sendable h hidle hid hs hbuf hhidden h0 hssid hp hpassword

/-- Without a password the credential step keeps its failing result. -/
theorem connectsProperly_open : ¬ ConnectsProperly secretMachine (fun _ => false)
    (.connected homeConn) homeConn cafeConfig ⟨ascii "cafe",by decide⟩ (Link.atOnce performing) := by
  intro hc
  exact absurd (hc.sendable homeConn_on (freshConn_idle _) (by decide) rfl
    (fun h => absurd h (by decide)) fun _ => rfl).1 (by decide)

theorem connectsProperly_wep : ConnectsProperly secretMachine (fun _ => false)
    (.connected homeConn) homeConn { cafeConfig with flag := 0 } ⟨ascii "cafe",by decide⟩
    (Link.atOnce performing) := by
  refine (connectsProperly_iff secretMachine (fun _ => false) homeConn_on (freshConn_idle _)
    (by decide) rfl ?_ _).mpr ⟨fun _ => rfl,rfl,⟨(spaced_words_iff (by decide) _).mp (by decide),
      by decide⟩,_,rfl,⟨(spaced_words_iff (by decide) _).mp (by decide),by decide⟩⟩
  rintro - password ⟨⟩
  decide

end WpaCliWrapper
