import WpaCliWrapper.Oper.Ssid
import WpaCliWrapper.Supplicant.ListNetworks

/-! The list of networks after a call of `connect_wifi` that failed. -/
namespace WpaCliWrapper
open CText Exchange

variable {F : SsidFields}

/-- What the daemon can do in the surroundings of a call: it refuses with `FAIL`, and its reply to
`LIST_NETWORKS` starts with the header of the list. -/
abbrev ListCircumstance := Circumstance (· = failReply) (listHeader <+: ·)

abbrev listSupplicant (F : SsidFields) : Daemon := supplicant F (· = failReply) (listHeader <+: ·)

/-- The circumstance in which every request is performed. -/
def granting : ListCircumstance := ⟨none,⟨listHeader,by decide,List.prefix_rfl⟩⟩

/-- The ids after some requests of a call: every `REMOVE_NETWORK` among them has erased its id. -/
def Tracked (base : List (Bytes × Bytes)) (ids : List ℤ) (id : Bytes) (i : ℤ) (s : Networks F)
    (done : List (Bytes × Bytes)) : Prop :=
  ∃ new, done = base ++ new ∧
    s.ids = (·.erase i)^[(new.map Prod.fst).count (removeRequest id)] ids

theorem keeps_tracked {answers reports : Bytes → Prop} {base : List (Bytes × Bytes)} {ids : List ℤ}
    {id : Bytes} {i : ℤ} (hi : IdText id) (ha : networkArg id = .id i) :
    Link.Keeps (supplicant F answers reports).server (Tracked base ids id i) (NetworkRequest id) := by
  rintro c s done q ⟨new,rfl,hids⟩ hq
  refine ⟨new ++ [(q,_)],by rw [List.append_assoc],?_⟩
  have hserve : Networks.ids ((supplicant F answers reports).server.serve c s q).1 = _ := hq.ids hi ha c s
  rw [hserve,hids,List.map_append,List.count_append]
  by_cases hrem : q = removeRequest id
  · rw [if_pos hrem,hrem]
    simp [Function.iterate_succ_apply']
  · rw [if_neg hrem]
    simp [hrem]

section Erase
variable {l : List ℤ} {i : ℤ}

theorem iterate_erase_of_notMem (h : i ∉ l) (n : ℕ) : (·.erase i)^[n] l = l :=
  Function.iterate_fixed (List.erase_of_not_mem h) n

theorem iterate_erase_append (h : i ∉ l) (n : ℕ) : (·.erase i)^[n+1] (l ++ [i]) = l := by
  have herase : (l ++ [i]).erase i = l := by
    rw [List.erase_append_right _ h]
    simp
  rw [Function.iterate_succ_apply,herase]
  exact iterate_erase_of_notMem h n

theorem iterate_erase_length (n : ℕ) : ((·.erase i)^[n] l).length ≤ l.length := by
  induction n generalizing l with
  | zero => exact le_rfl
  | succ n ih =>
    rw [Function.iterate_succ_apply]
    exact ih.trans List.length_erase_le

/-- Erasing an id that occurs leaves another list. -/
theorem iterate_erase_ne (h : i ∈ l) (n : ℕ) : (·.erase i)^[n+1] l ≠ l := by
  intro he
  have he : (·.erase i)^[n] (l.erase i) = l := he
  have hlen := iterate_erase_length (l := l.erase i) (i := i) n
  rw [he,List.length_erase_of_mem h] at hlen
  have hpos := List.length_pos_of_mem h
  omega

end Erase

/-- Whenever the call gets to its rollback, both requests of it are sent. -/
def RollbackDelivered (m : Machine) (cfg : BuildConfig) (w : Wrapper (listSupplicant F))
    (config : WifiConfig) (conn conn' : Conn (listSupplicant F)) : Prop :=
  ∀ w₂ id, connectSteps m cfg w config = .ok (w₂,id,false) → id ≠ [] →
    ascii "DISABLE_NETWORK" ++ 32 :: id ∈ conn'.sent.drop conn.sent.length ∧
      removeRequest id ∈ conn'.sent.drop conn.sent.length

/-- Whatever happens after the first request, and whatever `%s` reads in place of the missing
argument: if the call fails and its rollback is delivered, then the daemon has the same ids as
before as soon as it has served everything. -/
def RollsBack (m : Machine) (cfg : BuildConfig) (w : Wrapper (listSupplicant F))
    (conn : Conn (listSupplicant F)) (config : WifiConfig)
    (d : Delivery (listSupplicant F).server) : Prop :=
  ∀ env arg, ∃ w' ret conn',
    connectWifi { m with missingArg := arg } cfg (w.withEnv (d :: env)) config = .ok (w',ret) ∧
      w'.ctrlConn = some conn' ∧
      (ret ≠ 0 → RollbackDelivered { m with missingArg := arg } cfg (w.withEnv (d :: env)) config
        conn conn' → ∀ cs, (conn'.drain cs).waiting = [] →
          Networks.ids (conn'.drain cs).server = Networks.ids conn.server)

/-- The credentials keep their step inside the arrays, if the daemon takes the value of the SSID for
its new network: the password is not used for WPA; and for WEP, if the daemon takes `NONE` too, the
password can be read and leaves room in `argv`. -/
def KeyFits (m : Machine) (nets : Networks F) (config : WifiConfig) (ssid : CString) : Prop :=
  words isBlank ssid.bytes ≠ [] →
    ∀ n, updateNetwork (newNetwork nets) (ascii "ssid") (ssidValue ssid) = some n →
      config.flag ≠ 1 ∧
        (config.flag = 0 → (updateNetwork n (ascii "key_mgmt") (ascii "NONE")).isSome →
          ∃ text, m.stringAt config.password = some text ∧ ¬ Overfills kMaxArgs
            (setNetworkCmd (idReply (nextId nets)) (ascii "wep_key0") text.bytes).bytes)

/-- A network that is added gets its id to the caller. With what the caller reads as the id the SSID
leaves room in `argv`, and so do the credentials, unless it reads `FAIL` and no network has the
id 0. -/
def Restorable (m : Machine) (nets : Networks F) (config : WifiConfig)
    (d : Delivery (listSupplicant F).server) : Prop :=
  d.sent → ∃ (c : ListCircumstance) (arrives : Bool),
    Link.served d.acts = some (c,arrives) ∧ (c.refusal = none → arrives) ∧
      (arrives → ∃ ssid, config.ssidText = some ssid ∧
        ¬ Overfills kMaxArgs (setNetworkCmd (addReply c nets) (ascii "ssid") ssid.bytes).bytes ∧
        if c.refusal.isSome then 0 ∉ nets.ids else KeyFits m nets config ssid)

/-- The hidden request does not change the ids. -/
theorem ids_after_list {conn : Conn (listSupplicant F)} (hidle : conn.Idle (takes 1)) {ids : List ℤ}
    (h : Networks.ids conn.server = ids) (cs : List (listSupplicant F).server.Choice) :
    Networks.ids (((conn.exchange (takes 1) (ascii "LIST_NETWORKS")).1).drain cs).server = ids := by
  have hk : Link.Keeps (listSupplicant F).server (fun s _ => Networks.ids s = ids)
      (· = ascii "LIST_NETWORKS") := by
    rintro c s done q hs rfl
    exact hs
  have hs : Link.Sends (takes 1) (· = ascii "LIST_NETWORKS") conn _ := Link.Sends.refl.step rfl
  exact hs.kept hk (fun _ hq => hq) hidle.settled h cs

/-- The id in `network_id` as the daemon reads it. -/
theorem networkArg_addReply (c : ListCircumstance) {nets : Networks F}
    (hid : nextId nets < 2^31) : networkArg (addReply c nets) =
      .id (if c.refusal.isSome then 0 else nextId nets) := by
  rw [addReply_eq c hid]
  split
  · exact networkArg_failReply
  · exact networkArg_idReply ⟨by linarith [(nextId_fresh nets).2],hid⟩

theorem add_ids (c : ListCircumstance) (nets : Networks F) :
    (ctrlIfaceProcess c nets (ascii "ADD_NETWORK")).1.ids =
      if c.refusal.isSome then nets.ids else nets.ids ++ [nextId nets] := by
  rw [process_add]
  split
  · rfl
  · simp [ctrlIfaceAddNetwork,Networks.ids,newNetwork]

section Settings
variable {nets : Networks F} {id name : Bytes} {ws : List Bytes}

theorem failReply_not_ok : saysOk failReply = false := by decide

/-- The header of the list is not read as `OK`. -/
theorem report_not_ok (c : ListCircumstance) : saysOk c.report.1 = false := by
  obtain ⟨rest,hrest⟩ := c.report.2.2
  rw [← hrest]
  rfl

/-- A setting that is answered with `OK` was made. -/
theorem setting_made (hid : 32 ∉ id) (hname : 32 ∉ name) (hws : ws ≠ []) {c : ListCircumstance}
    (hok : saysOk (ctrlIfaceProcess c nets (setRequest id name ws)).2) :
    ∃ n n', wpaConfigGetNetwork nets (atoi id) = some n ∧
      updateNetwork n name (spaced 32 ws).tail = some n' ∧
      (ctrlIfaceProcess c nets (setRequest id name ws)).1 = putNetwork n' nets := by
  have hmade : ∀ {result : Option (Networks F)},
      saysOk (c.refusal.elim (answerTo nets result) fun text => (nets,text.1)).2 →
      ∃ nets', result = some nets' ∧
        (c.refusal.elim (answerTo nets result) fun text => (nets,text.1)).1 = nets' := by
    intro result hok
    cases hc : c.refusal with
    | some text =>
      rw [hc] at hok
      have hfail : saysOk text.1 = true := hok
      rw [text.2.2,failReply_not_ok] at hfail
      cases hfail
    | none =>
      rw [hc] at hok
      cases result with
      | none =>
        have hfail : saysOk failReply = true := hok
        rw [failReply_not_ok] at hfail
        cases hfail
      | some nets' => exact ⟨nets',rfl,rfl⟩
  cases hget : wpaConfigGetNetwork nets (atoi id) with
  | none =>
    have hset : ctrlIfaceSetNetwork nets (id ++ 32 :: (name ++ 32 :: (spaced 32 ws).tail)) = none := by
      simp only [ctrlIfaceSetNetwork,splitBlank_append hid,splitBlank_append hname,hget,
        Option.bind_eq_bind,Option.bind_some,Option.bind_none]
    rw [setRequest_eq hws,process_set] at hok
    obtain ⟨nets',hnets',-⟩ := hmade hok
    rw [hset] at hnets'
    cases hnets'
  | some n =>
    rw [process_setting hid hname hws c hget] at hok ⊢
    obtain ⟨nets',hnets',hserver⟩ := hmade hok
    obtain ⟨n',hn',rfl⟩ := Option.map_eq_some_iff.mp hnets'
    exact ⟨n,n',rfl,hn',hserver⟩

/-- A value that the daemon takes is answered with `OK` unless the setting is refused. -/
theorem setting_granted (hid : 32 ∉ id) (hname : 32 ∉ name) (hws : ws ≠ []) {n n' : WpaSsid F}
    (hget : wpaConfigGetNetwork nets (atoi id) = some n)
    (hn' : updateNetwork n name (spaced 32 ws).tail = some n') :
    ctrlIfaceProcess granting nets (setRequest id name ws) = (putNetwork n' nets,okReply) := by
  rw [process_setting hid hname hws granting hget,hn']
  rfl

/-- The setting of the SSID behind the hidden request. If its step gets an `OK`, then this is the
answer to the setting, and nothing is outstanding any more. -/
theorem first_setting_made {conn : Conn (listSupplicant F)} (hidle : conn.Idle (takes 1))
    (hid : 32 ∉ id) (hname : 32 ∉ name) (hws : ws ≠ []) {r : Bytes}
    (hgot : ((conn.exchange (takes 1) (ascii "LIST_NETWORKS")).1.exchange (takes 1)
      (setRequest id name ws)).2.2 = .got r) (hok : saysOk r) :
    ∃ n n', wpaConfigGetNetwork conn.server (atoi id) = some n ∧
      updateNetwork n name (spaced 32 ws).tail = some n' ∧
      ((conn.exchange (takes 1) (ascii "LIST_NETWORKS")).1.exchange (takes 1)
        (setRequest id name ws)).1.Idle (takes 1) ∧
      ((conn.exchange (takes 1) (ascii "LIST_NETWORKS")).1.exchange (takes 1)
        (setRequest id name ws)).1.server = putNetwork n' conn.server := by
  have hk : Link.Keeps (listSupplicant F).server (fun s _ => s = conn.server)
      (· = ascii "LIST_NETWORKS") := by
    rintro c s done q hs rfl
    exact hs
  have hg : Link.Guarded (fun s _ => s = conn.server) (· = ascii "LIST_NETWORKS") conn :=
    ⟨rfl,by simp [hidle.settled]⟩
  have hquiet := hidle.exchange_quiet (skips_takes Nat.one_pos) (ascii "LIST_NETWORKS")
  have hv : Link.Vouched (fun s _ => s = conn.server) (· = ascii "LIST_NETWORKS")
      (fun r => saysOk r = false) (takes 1) (conn.exchange (takes 1) (ascii "LIST_NETWORKS")).1 :=
    ⟨hg.exchange hk (takes 1) rfl,fun r hr ht => by rw [hquiet r hr] at ht; cases ht⟩
  rcases hv.exchange (skips_takes Nat.one_pos) hk
    (by rintro c s done q - rfl; exact report_not_ok c) (setRequest id name ws) with
    hother | ⟨c,s,done,rfl,hown,hidle',hserver⟩
  · rw [hother r hgot] at hok
    cases hok
  · rw [hgot] at hown
    cases hown
    obtain ⟨n,n',hget,hn',hput⟩ := setting_made hid hname hws hok
    exact ⟨n,n',hget,hn',hidle',hserver.trans hput⟩

/-- With nothing outstanding, a setting whose step gets an `OK` was made. -/
theorem next_setting_made {conn : Conn (listSupplicant F)} (hidle : conn.Idle (takes 1))
    (hid : 32 ∉ id) (hname : 32 ∉ name) (hws : ws ≠ []) {r : Bytes}
    (hgot : (conn.exchange (takes 1) (setRequest id name ws)).2.2 = .got r) (hok : saysOk r) :
    ∃ n n', wpaConfigGetNetwork conn.server (atoi id) = some n ∧
      updateNetwork n name (spaced 32 ws).tail = some n' := by
  rcases hidle.exchange_cases (skips_takes Nat.one_pos) (setRequest id name ws) with
    ⟨-,-,hnone⟩ | ⟨c,-,-,hown⟩
  · exact absurd hgot (hnone r)
  · rw [hown r hgot] at hok
    obtain ⟨n,n',hget,hn',-⟩ := setting_made hid hname hws hok
    exact ⟨n,n',hget,hn'⟩

end Settings

section Credentials
variable {m : Machine} {cfg : BuildConfig} {nets : Networks F} (hid : nextId nets < 2^31)
  {config : WifiConfig}
include hid

/-- Where the steps before them succeed, the credentials fit. -/
theorem key_fits_of_steps {c : ListCircumstance} {w₁ : Wrapper (listSupplicant F)}
    {conn₁ : Conn (listSupplicant F)} (hon₁ : On w₁ (conn₁.exchange (takes 1) (ascii "LIST_NETWORKS")).1)
    (hidle₁ : conn₁.Idle (takes 1)) {added : Networks F} (hadded : conn₁.server = added)
    (hserver : added = (ctrlIfaceProcess c nets (ascii "ADD_NETWORK")).1)
    {ssid : CString} (hssid : config.ssidText = some ssid)
    (hkey : if c.refusal.isSome then 0 ∉ nets.ids else KeyFits m nets config ssid)
    {w₂ : Wrapper (listSupplicant F)} (hr : setSsid cfg w₁ (addReply c nets) ssid = .ok (w₂,0)) :
    config.flag ≠ 1 ∧ (config.flag = 0 → ∀ w₃, wpaCliCommExec cfg w₂
        (setNetworkCmd (addReply c nets) (ascii "key_mgmt") (ascii "NONE")) = .ok (w₃,0) →
      ∃ text, m.stringAt config.password = some text ∧ ¬ Overfills kMaxArgs
        (setNetworkCmd (addReply c nets) (ascii "wep_key0") text.bytes).bytes) := by
  have hi := addReply_idText c hid
  have hblank : 32 ∉ addReply c nets := fun hm => absurd (hi.word.2 32 hm) (by decide)
  obtain ⟨hne,hon₂,r,hgot,hok⟩ := set_succeeded hon₁ hi ssid_name ssid.noNul hr
  have hwords := (valueWords_ssid_ne_nil hi hssid).mp hne
  obtain ⟨n,n',hget,hn',hidle₂,hserver₂⟩ :=
    first_setting_made hidle₁ hblank (by decide) hne hgot hok
  rw [valueWords_ssid hi hssid] at hn'
  rw [hadded,hserver] at hget
  rw [process_add] at hserver hget
  by_cases hc : c.refusal.isSome
  · rw [addReply_eq c hid,if_pos hc,if_pos hc] at hget
    rw [if_pos hc] at hkey
    exact absurd (List.mem_map.mpr ⟨n,getNetwork_mem hget⟩) hkey
  have hreply := addReply_eq c hid
  rw [if_neg hc] at hkey hreply hserver hget
  have hrange : -2^31 ≤ nextId nets ∧ nextId nets < 2^31 :=
    ⟨by linarith [(nextId_fresh nets).2],hid⟩
  have hatoi : atoi (addReply c nets) = nextId nets := by
    rw [hreply]
    exact atoi_decimal_append hrange (by rintro c ⟨⟩; rfl)
  have hget : wpaConfigGetNetwork (nets ++ [newNetwork nets]) (atoi (addReply c nets)) = some n := hget
  rw [hatoi,getNetwork_newNetwork] at hget
  cases hget
  obtain ⟨hflag,hwep⟩ := hkey hwords n' hn'
  rw [← hreply] at hwep
  refine ⟨hflag,fun h0 w₃ hr₃ => hwep h0 ?_⟩
  obtain ⟨hne₃,-,r₃,hgot₃,hok₃⟩ := set_succeeded hon₂ hi keyMgmt_name (by decide) hr₃
  obtain ⟨n₃,n₄,hget₃,hn₄⟩ := next_setting_made hidle₂ hblank (by decide) hne₃ hgot₃ hok₃
  rw [(keyMgmt_words hi).2] at hn₄
  -- the network that the second setting finds is the one that the first setting has stored
  have hid' : n'.id = nextId nets := updateNetwork_id hn'
  have hmem : n'.id ∈ Networks.ids added := by
    rw [hid',hserver]
    simp [ctrlIfaceAddNetwork,Networks.ids,newNetwork]
  have hget₃ : wpaConfigGetNetwork (putNetwork n' added) (atoi (addReply c nets)) = some n₃ := by
    rw [← hadded]
    exact hserver₂ ▸ hget₃
  rw [hatoi,← hid',getNetwork_putNetwork hmem] at hget₃
  cases hget₃
  exact Option.isSome_iff_exists.mpr ⟨n₄,hn₄⟩

/-- Credentials that do not fit lead to a fault, if nothing is refused. -/
theorem key_faults {w₁ : Wrapper (listSupplicant F)} {conn₁ : Conn (listSupplicant F)}
    (hon₁ : On w₁ conn₁) (hidle₁ : conn₁.Idle (takes 1))
    (henv : conn₁.env = [Link.atOnce granting,Link.atOnce granting])
    (hserver : conn₁.server = nets ++ [newNetwork nets]) {ssid : CString}
    (hssid : config.ssidText = some ssid)
    (ho : ¬ Overfills kMaxArgs (setNetworkCmd (idReply (nextId nets)) (ascii "ssid") ssid.bytes).bytes)
    (hkey : ¬ KeyFits m nets config ssid) : ∃ fault, configureNetwork { m with missingArg := none } cfg
      w₁ config (idReply (nextId nets)) = .error fault := by
  have hrange : -2^31 ≤ nextId nets ∧ nextId nets < 2^31 :=
    ⟨by linarith [(nextId_fresh nets).2],hid⟩
  have hi := idReply_idText hrange
  have hblank : 32 ∉ idReply (nextId nets) := fun hm => absurd (hi.word.2 32 hm) (by decide)
  have hatoi : atoi (idReply (nextId nets)) = nextId nets :=
    atoi_decimal_append hrange (by rintro c ⟨⟩; rfl)
  obtain ⟨hwords,hkey⟩ := Classical.not_imp.mp hkey
  obtain ⟨n,hn⟩ := not_forall.mp hkey
  obtain ⟨hn,hkey⟩ := Classical.not_imp.mp hn
  have hws : valueWords (idReply (nextId nets)) (ascii "ssid") ssid.bytes ≠ [] :=
    (valueWords_ssid_ne_nil hi hssid).mpr hwords
  have hfirst := setting_granted hblank (show 32 ∉ ascii "ssid" by decide) hws
    (hatoi.symm ▸ getNetwork_newNetwork nets) (by rw [valueWords_ssid hi hssid]; exact hn)
  have hfirst : (listSupplicant F).serve granting conn₁.server
      (setRequest (idReply (nextId nets)) (ascii "ssid")
        (valueWords (idReply (nextId nets)) (ascii "ssid") ssid.bytes)) =
      (putNetwork n (nets ++ [newNetwork nets]),okReply) := by
    rw [hserver]
    exact hfirst
  refine configure_key_faults cfg hon₁ hi hssid ho hwords hidle₁ henv (congrArg Prod.snd hfirst) ?_
  by_cases h1 : config.flag = 1
  · exact .inl h1
  obtain ⟨h0,hkey⟩ := Classical.not_imp.mp (not_and.mp hkey h1)
  obtain ⟨hnone,hkey⟩ := Classical.not_imp.mp hkey
  obtain ⟨n',hn'⟩ := Option.isSome_iff_exists.mp hnone
  refine .inr ⟨h0,?_,fun text ht => ?_⟩
  · have hid' : n.id = nextId nets := updateNetwork_id hn
    have hmem : n.id ∈ Networks.ids (nets ++ [newNetwork nets]) := by
      rw [hid']
      simp [Networks.ids,newNetwork]
    rw [hfirst]
    exact congrArg Prod.snd (setting_granted hblank (show 32 ∉ ascii "key_mgmt" by decide)
      (List.cons_ne_nil (ascii "NONE") [])
      (hatoi.symm ▸ hid' ▸ getNetwork_putNetwork hmem) hn')
  · by_contra hwep
    exact hkey ⟨text,ht,hwep⟩

end Credentials

section Rollback
variable {m : Machine} {cfg : BuildConfig} {w : Wrapper (listSupplicant F)}
  {conn : Conn (listSupplicant F)} (h : On w conn) (hidle : conn.Idle (takes 1))
  (hid : nextId conn.server < 2^31) {config : WifiConfig}
  {d : Delivery (listSupplicant F).server}
include h hidle hid

/-- What was read as the id is removed again, and with it what was added. -/
theorem rollsBack_of_read {c : ListCircumstance} (hsent : d.sent)
    (hserved : Link.served d.acts = some (c,true)) {ssid : CString}
    (hssid : config.ssidText = some ssid)
    (ho : ¬ Overfills kMaxArgs (setNetworkCmd (addReply c conn.server) (ascii "ssid") ssid.bytes).bytes)
    (hkey : if c.refusal.isSome then 0 ∉ Networks.ids conn.server
      else KeyFits m conn.server config ssid) : RollsBack m cfg w conn config d := by
  intro env arg
  obtain ⟨w₁,conn₁,hadd,hon₁,hidle₁,-,hserver,hdone⟩ :=
    addNetwork_read cfg (h.withEnv (d :: env)) (idle_withEnv hidle (d :: env)) rfl hsent
      hserved hid
  have hi := addReply_idText c hid
  have ha := networkArg_addReply c hid
  obtain ⟨w₂,connected,conn₂,hc,hon₂,hs⟩ := configure_steps (m := { m with missingArg := arg }) cfg
    hon₁ hi hssid ho fun w₂ conn₂ hr _ => key_fits_of_steps hid hon₁ hidle₁ rfl hserver hssid hkey hr
  obtain ⟨w',ret,conn',hsteps,hr,hret,hon,hs⟩ := connect_of_configured hadd hi hc hon₂ hs
  have hs := (Link.Sends.refl.step .list).trans hs
  refine ⟨w',ret,conn',hr,hon.connected,fun hne hdel cs hw => ?_⟩
  have hfalse : connected = false := by simpa [hret] using hne
  rw [hfalse] at hsteps
  obtain ⟨-,hrem⟩ := hdel w₂ _ hsteps hi.word.1
  have hstart : Tracked conn₁.done (Networks.ids conn₁.server) (addReply c conn.server)
      (if c.refusal.isSome then 0 else nextId conn.server) conn₁.server conn₁.done :=
    ⟨[],by simp,rfl⟩
  obtain ⟨new,hnew,hids⟩ :=
    hs.kept (keeps_tracked hi ha) (fun _ hq => hq) hidle₁.settled hstart cs
  have hsent' : conn'.sent = conn.done.map Prod.fst ++ ascii "ADD_NETWORK" :: new.map Prod.fst := by
    rw [← Link.drain_sent conn' cs,Link.sent,hw,hnew,hdone]
    simp
  have hmem : removeRequest (addReply c conn.server) ∈ new.map Prod.fst := by
    rw [hsent',hidle.sent_length,← List.length_map Prod.fst,List.drop_left] at hrem
    rcases List.mem_cons.mp hrem with he | hm
    · exact absurd (List.cons.inj he).1 (by decide)
    · exact hm
  obtain ⟨n,hn⟩ := Nat.exists_eq_add_one.mpr (List.count_pos_iff.mpr hmem)
  have hids₁ : Networks.ids conn₁.server =
      if c.refusal.isSome then Networks.ids conn.server
      else Networks.ids conn.server ++ [nextId conn.server] := by
    rw [hserver]
    exact add_ids c conn.server
  rw [hids,hn,hids₁]
  by_cases hc : c.refusal.isSome
  · rw [if_pos hc,if_pos hc]
    rw [if_pos hc] at hkey
    exact iterate_erase_of_notMem hkey _
  · rw [if_neg hc,if_neg hc]
    exact iterate_erase_append (nextId_fresh conn.server).1 n

theorem rollsBack_of_restorable (hd : Restorable m conn.server config d) :
    RollsBack m cfg w conn config d := by
  by_cases hread : ∃ c : ListCircumstance, d.sent ∧ Link.served d.acts = some (c,true)
  · obtain ⟨c,hsent,hserved⟩ := hread
    obtain ⟨c',arrives,hserved',-,hfit⟩ := hd hsent
    rw [hserved] at hserved'
    cases hserved'
    obtain ⟨ssid,hssid,ho,hkey⟩ := hfit rfl
    exact rollsBack_of_read h hidle hid hsent hserved hssid ho hkey
  · have hunread : d.sent → ∀ c, Link.served d.acts ≠ some (c,true) :=
      fun hsent c hserved => hread ⟨c,hsent,hserved⟩
    intro env arg
    obtain ⟨w₁,hadd,hon⟩ := addNetwork_unread cfg (h.withEnv (d :: env)) (idle_withEnv hidle (d :: env))
      rfl hunread
    refine ⟨w₁,-1,_,(connect_of_none _ _ hadd).2,hon.connected,fun _ _ cs _ => ?_⟩
    have hx := (idle_withEnv hidle (d :: env)).exchange (skips_takes Nat.one_pos) (ascii "ADD_NETWORK")
    rw [Link.sending_of_env rfl] at hx
    cases hsent : d.sent with
    | false =>
      rw [hsent] at hx
      obtain ⟨hidle₁,hserver,-⟩ := hx
      exact ids_after_list hidle₁ (congrArg Networks.ids hserver) cs
    | true =>
      -- Served in time but not read: the reply was lost, so the daemon has refused to add.
      obtain ⟨c,arrives,hserved,hadded,-⟩ := hd hsent
      rw [if_pos hsent] at hx
      have hx : Link.Answered _ _ _ _ d.acts _ := hx
      simp only [Link.Answered,hserved] at hx
      obtain ⟨hidle₁,hserver,-⟩ := hx
      have hc : c.refusal.isSome := by
        rw [Option.isSome_iff_ne_none]
        intro hnone
        rw [hadded hnone] at hserved
        exact hunread hsent c hserved
      have hids := add_ids c conn.server
      rw [if_pos hc] at hids
      exact ids_after_list hidle₁ ((congrArg Networks.ids hserver).trans hids) cs

omit hid in
/-- A call that gets no id leaves behind what its request did to the daemon. -/
theorem RollsBack.unread (hr : RollsBack m cfg w conn config d)
    (hn : d.sent → ∀ c, Link.served d.acts ≠ some (c,true))
    (cs : List (listSupplicant F).server.Choice) {conn₁ : Conn (listSupplicant F)}
    (hx : (Link.exchange (takes 1) (ascii "ADD_NETWORK") { conn with env := [d] }).1 = conn₁)
    (hw : (conn₁.drain cs).waiting = []) :
    Networks.ids (conn₁.drain cs).server = Networks.ids conn.server := by
  obtain ⟨w₁,hadd,hon⟩ := addNetwork_unread cfg (h.withEnv [d]) (idle_withEnv hidle [d]) rfl hn
  obtain ⟨w',ret,conn',hrun,hconn,hids⟩ := hr [] m.missingArg
  obtain ⟨hsteps,hwifi⟩ := connect_of_none m config hadd
  have hrun : connectWifi m cfg (w.withEnv [d]) config = .ok (w',ret) := hrun
  rw [hwifi] at hrun
  cases hrun
  have henv : conn₁.env = [] := by
    rw [← hx]
    exact (Link.exchange_sent (takes 1) (ascii "ADD_NETWORK") { conn with env := [d] }).1
  have hx := hx ▸ hon.connected
  rw [Link.exchange_gone henv,hconn] at hx
  cases hx
  refine hids (by decide) (fun w₂ id hs hid => ?_) cs hw
  have hs : connectSteps m cfg (w.withEnv [d]) config = .ok (w₂,id,false) := hs
  rw [hsteps] at hs
  cases hs
  exact absurd rfl hid

/-- A refused request is followed by the removal of the network 0. -/
theorem RollsBack.refused (hr : RollsBack m cfg w conn config d) {c : ListCircumstance}
    (hsent : d.sent) (hserved : Link.served d.acts = some (c,true)) (hc : c.refusal.isSome) :
    0 ∉ Networks.ids conn.server := by
  intro h0
  obtain ⟨env,hrun⟩ := connect_refused m cfg h hidle hid config hsent
    hserved hc
  obtain ⟨w',ret,conn',hr,hconn,hids⟩ := hr env m.missingArg
  have hr : connectWifi m cfg (w.withEnv (d :: env)) config = .ok (w',ret) := hr
  rcases hrun with ⟨fault,hf⟩ | ⟨w₂,w₃,conn₃,first,hsteps,hr₃,hconn₃,hfirst,hserver,hdone,hwaiting⟩
  · rw [hf] at hr
    cases hr
  rw [hr₃] at hr
  cases hr
  rw [hconn₃] at hconn
  cases hconn
  have hall : ∀ q ∈ conn'.waiting, NetworkRequest failReply q := by
    rw [hwaiting]
    intro q hq
    rcases List.mem_append.mp hq with hq | hq
    · exact hfirst q hq
    · simp only [List.mem_cons,List.not_mem_nil,or_false] at hq
      rcases hq with rfl | rfl | rfl
      · exact .disable
      · exact .remove
      · exact .list
  have hsent' : conn'.sent.drop conn.sent.length = ascii "ADD_NETWORK" :: conn'.waiting := by
    rw [hidle.sent_length,Link.sent,hdone]
    simp
  have hdel : RollbackDelivered m cfg (w.withEnv (d :: env)) config conn conn' := by
    intro w₂ id hs _
    rw [hsteps] at hs
    cases hs
    rw [hsent',hwaiting]
    simp
  let cs : List (listSupplicant F).server.Choice := List.replicate conn'.waiting.length granting
  have hw : (conn'.drain cs).waiting = [] := by
    rw [Link.drain_waiting]
    exact List.drop_eq_nil_of_le List.length_replicate.ge
  have hg : Link.Guarded (Tracked conn'.done (Networks.ids conn'.server) failReply 0)
      (NetworkRequest failReply) conn' := ⟨⟨[],by simp,rfl⟩,hall⟩
  obtain ⟨new,hnew,hids'⟩ :=
    (hg.drain (keeps_tracked failReply_idText networkArg_failReply) cs).served
  have hwaiting' : new.map Prod.fst = conn'.waiting := by
    have hs := Link.drain_sent conn' cs
    rw [Link.sent,hw,hnew,Link.sent,List.map_append,List.append_nil] at hs
    exact List.append_cancel_left hs
  have hmem : removeRequest failReply ∈ new.map Prod.fst := by
    rw [hwaiting',hwaiting]
    simp
  obtain ⟨n,hn⟩ := Nat.exists_eq_add_one.mpr (List.count_pos_iff.mpr hmem)
  have hsame := hids (by decide) hdel cs hw
  rw [hids',hn,hserver] at hsame
  exact iterate_erase_ne h0 n hsame

omit h hidle hid in
theorem RollsBack.no_fault (hr : RollsBack m cfg w conn config d)
    {env : List (Delivery (listSupplicant F).server)} {w₁ : Wrapper (listSupplicant F)} {id : Bytes}
    (hadd : addNetwork cfg (w.withEnv (d :: env)) [] = .ok (w₁,id,0)) :
    ¬ ∃ fault, configureNetwork { m with missingArg := none } cfg w₁ config id = .error fault := by
  rintro ⟨fault,hf⟩
  obtain ⟨w',ret,conn',hrun,-⟩ := hr env none
  rw [connect_faults hadd hf] at hrun
  cases hrun

/-- A reply that is read leaves room for the SSID, and an id for the credentials. -/
theorem RollsBack.fits (hr : RollsBack m cfg w conn config d) {c : ListCircumstance}
    (hsent : d.sent) (hserved : Link.served d.acts = some (c,true)) :
    ∃ ssid, config.ssidText = some ssid ∧
      ¬ Overfills kMaxArgs (setNetworkCmd (addReply c conn.server) (ascii "ssid") ssid.bytes).bytes ∧
      if c.refusal.isSome then 0 ∉ Networks.ids conn.server else KeyFits m conn.server config ssid := by
  obtain ⟨w₁,conn₁,hadd,hon₁,hidle₁,henv,hserver⟩ := addNetwork_unlisted cfg h hidle hid hsent hserved
    [Link.atOnce granting,Link.atOnce granting]
  have hfault := hr.no_fault hadd
  obtain ⟨ssid,hssid,ho⟩ : ∃ ssid, config.ssidText = some ssid ∧ ¬ Overfills kMaxArgs
      (setNetworkCmd (addReply c conn.server) (ascii "ssid") ssid.bytes).bytes := by
    by_contra hnone
    exact hfault (configure_ssid_faults cfg hon₁ fun ssid hs => by
      by_contra ho
      exact hnone ⟨ssid,hs,ho⟩)
  refine ⟨ssid,hssid,ho,?_⟩
  by_cases hc : c.refusal.isSome
  · rw [if_pos hc]
    exact hr.refused h hidle hid hsent hserved hc
  · rw [if_neg hc]
    by_contra hkey
    have hreply : addReply c conn.server = idReply (nextId conn.server) :=
      (addReply_eq c hid).trans (if_neg hc)
    have hstate := hserver.trans (congrArg Prod.fst ((process_add c conn.server).trans (if_neg hc)))
    rw [hreply] at ho hfault
    exact hfault (key_faults hid hon₁ hidle₁ henv hstate hssid ho hkey)

theorem RollsBack.restorable (hr : RollsBack m cfg w conn config d) :
    Restorable m conn.server config d := by
  intro hsent
  have hx := (idle_withEnv hidle [d]).exchange (skips_takes Nat.one_pos) (ascii "ADD_NETWORK")
  rw [Link.sending_of_env rfl,if_pos hsent] at hx
  have hx : Link.Answered _ _ _ _ d.acts _ := hx
  have hgrown : ∀ {c : ListCircumstance} {s : Networks F}, c.refusal = none →
      s = (ctrlIfaceProcess c conn.server (ascii "ADD_NETWORK")).1 →
      s.ids ≠ Networks.ids conn.server := by
    rintro c s hc rfl hsame
    have hids := (add_ids c conn.server).symm.trans hsame
    rw [hc] at hids
    simp at hids
  cases hserved : Link.served d.acts with
  | none =>
    simp only [Link.Answered,hserved] at hx
    obtain ⟨hlone,hserver,-⟩ := hx
    have hids := hr.unread h hidle (fun _ c => by simp [hserved]) [granting] rfl
      (by rw [Link.drain_waiting,hlone.last]; rfl)
    refine absurd hids (hgrown (c := granting) rfl ((hlone.drain_server granting).trans ?_))
    exact congrArg (fun s => (ctrlIfaceProcess granting s (ascii "ADD_NETWORK")).1) hserver
  | some v =>
    obtain ⟨c,arrives⟩ := v
    refine ⟨c,arrives,rfl,fun hc => ?_,fun harrives => ?_⟩
    · by_contra hlost
      have hlost : arrives = false := by simpa using hlost
      rw [hlost] at hserved
      simp only [Link.Answered,hserved] at hx
      obtain ⟨⟨hw,-⟩,hserver,-⟩ := hx
      have hids := hr.unread h hidle (fun _ c => by simp [hserved]) [] rfl hw
      exact absurd hids (hgrown hc hserver)
    · rw [harrives] at hserved
      exact hr.fits h hidle hid hsent hserved

end Rollback

/-- A failed call takes its network back exactly in these cases: `ADD_NETWORK` is not sent; it is
refused and nobody reads that; or the call reads the reply, the SSID stays inside the arrays with
it, and either it says `FAIL` and no network has the id 0, or it is an id and the credentials stay
inside the arrays as far as the daemon takes the settings before them. -/
theorem rollsBack_iff (m : Machine) (cfg : BuildConfig) {w : Wrapper (listSupplicant F)}
    {conn : Conn (listSupplicant F)} (h : On w conn) (hidle : conn.Idle (takes 1))
    (hid : nextId conn.server < 2^31) (config : WifiConfig)
    (d : Delivery (listSupplicant F).server) :
    RollsBack m cfg w conn config d ↔ Restorable m conn.server config d :=
  ⟨fun hr => hr.restorable h hidle hid,rollsBack_of_restorable h hidle hid⟩

section Saved

/-- One network is saved, with the id 0. -/
def savedConn : Conn (listSupplicant noFields) := freshConn [⟨0,some (ascii "home"),0,()⟩]

theorem savedConn_on : On (.connected savedConn) savedConn := ⟨rfl,rfl,freshConn_sized _⟩

/-- `ADD_NETWORK` is served only after the call has given up waiting for it. -/
theorem rollsBack_timeout : ¬ RollsBack secretMachine (fun _ => false) (.connected savedConn) savedConn
    cafeConfig ⟨[],true,[]⟩ := by
  intro hr
  obtain ⟨c,arrives,hserved,-⟩ := hr.restorable savedConn_on (freshConn_idle _) (by decide) rfl
  cases hserved

/-- An odd number of digits is no SSID, so that the format string for WPA is not reached. -/
theorem rollsBack_rejected : RollsBack secretMachine (fun _ => false) (.connected savedConn) savedConn
    ⟨ascii "abc" ++ List.replicate 125 0,0,1,rfl⟩ (Link.atOnce granting) := by
  refine (rollsBack_iff _ _ savedConn_on (freshConn_idle _) (by decide) _ _).mpr fun _ => ?_
  refine ⟨granting,true,rfl,fun _ => rfl,fun _ => ⟨⟨ascii "abc",by decide⟩,rfl,by decide,?_⟩⟩
  intro _ n hn
  cases hn

end Saved

end WpaCliWrapper
