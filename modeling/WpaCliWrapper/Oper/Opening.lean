import WpaCliWrapper.Oper.Runs

/-! The call from its first request on: how the reply to `ADD_NETWORK` becomes the id that the
other requests carry, and what these requests do to the daemon's networks. -/
namespace WpaCliWrapper
open CText Exchange

variable {F : SsidFields} {answers reports : Bytes → Prop}

theorem isBlank_of_isDigit {c : UInt8} (h : isDigit c) : isBlank c = false := by
  have hs := isSpace_of_isDigit h
  simp only [isSpace,Bool.or_eq_false_iff,beq_eq_false_iff_ne,ne_eq] at hs
  have h9 : c ≠ 9 := by
    rintro rfl
    exact absurd h (by decide)
  simp [isBlank,hs.1,h9]

theorem idReply_idText {i : ℤ} (h : -2^31 ≤ i ∧ i < 2^31) : IdText (idReply i) := by
  have hlen := idReply_length h
  have hmem : ∀ c ∈ idReply i, c = 10 ∨ c = 45 ∨ isDigit c := by
    intro c hc
    rcases List.mem_append.mp hc with hc | hc
    · exact .inr (decimal_mem hc)
    · exact .inl (List.mem_singleton.mp hc)
  refine ⟨⟨by simp [idReply],fun c hc => ?_⟩,fun h0 => ?_,by omega⟩
  · rcases hmem c hc with rfl | rfl | hd
    · rfl
    · rfl
    · exact isBlank_of_isDigit hd
  · rcases hmem 0 h0 with h | h | h <;> exact absurd h (by decide)

theorem failReply_idText : IdText failReply := ⟨by decide,by decide,by decide⟩

theorem idReply_head (i : ℤ) : ∃ c s, idReply i = c :: s ∧ (c = 45 ∨ isDigit c) := by
  obtain ⟨c,s,hs,hc⟩ := decimal_head i
  exact ⟨c,s ++ [10],by rw [idReply,hs]; rfl,hc⟩

/-- No id is read as `all`. -/
theorem networkArg_idReply {i : ℤ} (h : -2^31 ≤ i ∧ i < 2^31) : networkArg (idReply i) = .id i := by
  have hall : idReply i ≠ ascii "all" := by
    obtain ⟨c,s,hs,hc⟩ := idReply_head i
    rw [hs]
    intro he
    have h97 : c = 97 := (List.cons.inj he).1
    rcases hc with rfl | hc
    · cases h97
    · subst h97
      exact absurd hc (by decide)
  rw [networkArg,if_neg hall,idReply,atoi_decimal_append h]
  intro c hc
  cases hc
  rfl

theorem networkArg_failReply : networkArg failReply = .id 0 := by decide

/-- The requests of a call are about the network that the daemon reads from `network_id`. -/
theorem NetworkRequest.targets {id q : Bytes} {i : ℤ} (hi : IdText id) (ha : networkArg id = .id i)
    (h : NetworkRequest id q) : ∀ t, target q = some t → t = .id i := by
  intro t ht
  cases h with
  | set name value =>
    have hall : atoi id = i := by
      unfold networkArg at ha
      split at ha
      · cases ha
      · exact Target.id.inj ha
    have hbytes : setRequest id name value =
        ascii "SET_NETWORK " ++ (id ++ 32 :: (name ++ spaced 32 value)) := by
      simp [setRequest,ascii]
    have hid : (id ++ 32 :: (name ++ spaced 32 value)).takeWhile (· != 32) = id := by
      rw [List.takeWhile_append_of_pos]
      · simp
      · intro c hc
        have hb := hi.word.2 c hc
        simp only [isBlank,Bool.or_eq_false_iff] at hb
        simpa using hb.1
    have htarget : target (ascii "SET_NETWORK " ++ (id ++ 32 :: (name ++ spaced 32 value))) =
        some (.id (atoi ((id ++ 32 :: (name ++ spaced 32 value)).takeWhile (· != 32)))) := rfl
    rw [hbytes,htarget,hid,hall] at ht
    exact (Option.some.inj ht).symm
  | enable => exact (Option.some.inj (ht.symm.trans (congrArg some ha)))
  | disable => exact (Option.some.inj (ht.symm.trans (congrArg some ha)))
  | remove => exact (Option.some.inj (ht.symm.trans (congrArg some ha)))
  | list => cases ht

/-- Of the requests of a call only the last one changes the list of ids. -/
theorem NetworkRequest.ids {id q : Bytes} {i : ℤ} (hi : IdText id)
    (ha : networkArg id = .id i) (h : NetworkRequest id q) (c : Circumstance answers reports)
    (nets : Networks F) : (ctrlIfaceProcess c nets q).1.ids =
      if q = removeRequest id then nets.ids.erase i else nets.ids := by
  have ht := fun t ht => (⟨i,h.targets hi ha t ht⟩ : ∃ i, t = .id i)
  have hother : ∀ {rest : Bytes} {x : UInt8}, q = x :: rest → x ≠ 65 → x ≠ 82 →
      (ctrlIfaceProcess c nets q).1.ids = if q = removeRequest id then nets.ids.erase i else nets.ids := by
    rintro rest x rfl h65 h82
    have hremove : ∀ cmd, x :: rest ≠ ascii "REMOVE_NETWORK " ++ cmd := by
      intro cmd he
      exact h82 (List.cons.inj he).1
    rw [process_ids c (fun he => h65 (List.cons.inj he).1) hremove ht,if_neg]
    intro he
    exact h82 (List.cons.inj he).1
  cases h with
  | set name value => exact hother rfl (by decide) (by decide)
  | enable => exact hother rfl (by decide) (by decide)
  | disable => exact hother rfl (by decide) (by decide)
  | list => exact hother rfl (by decide) (by decide)
  | remove =>
    have hbytes : removeRequest id = ascii "REMOVE_NETWORK " ++ id := by simp [removeRequest,ascii]
    rw [if_pos rfl,hbytes,process_remove]
    exact remove_ids nets ha

/-- The reply to `ADD_NETWORK`. -/
def addReply (c : Circumstance answers reports) (nets : Networks F) : Bytes :=
  (ctrlIfaceProcess c nets (ascii "ADD_NETWORK")).2

theorem addReply_eq (c : Circumstance answers reports) {nets : Networks F} (hid : nextId nets < 2^31) :
    addReply c nets = if c.refusal.isSome then failReply else idReply (nextId nets) := by
  have hlen := idReply_length (show -2^31 ≤ nextId nets ∧ _ from ⟨by linarith [(nextId_fresh nets).2],hid⟩)
  have hroom : (idReply (nextId nets)).length < replySize := by
    unfold replySize
    omega
  rw [addReply,process_add]
  split
  · rfl
  · exact if_pos hroom

theorem addReply_idText (c : Circumstance answers reports) {nets : Networks F} (hid : nextId nets < 2^31) :
    IdText (addReply c nets) := by
  rw [addReply_eq c hid]
  split
  · exact failReply_idText
  · exact idReply_idText ⟨by linarith [(nextId_fresh nets).2],hid⟩

/-- The reply is no message to the client. -/
theorem takes_addReply (c : Circumstance answers reports) {nets : Networks F} (hid : nextId nets < 2^31) :
    takes 1 (addReply c nets) = true := by
  rw [addReply_eq c hid]
  split
  · exact (by decide : takes 1 failReply = true)
  · obtain ⟨x,s,hs,hx⟩ := idReply_head (nextId nets)
    have hx : x ≠ 60 := by
      rintro rfl
      rcases hx with h | h <;> exact absurd h (by decide)
    simp [takes,hs,hx]

section Opening
variable (cfg : BuildConfig) {w : Wrapper (supplicant F answers reports)}
  {conn : Conn (supplicant F answers reports)} (h : On w conn) (hidle : conn.Idle (takes 1))
  {d : Delivery (supplicant F answers reports).server} {env : List (Delivery (supplicant F answers reports).server)}
  (he : conn.env = d :: env)
include h hidle he

/-- `ADD_NETWORK` is served in time and its reply arrives: it is the text in `network_id`. -/
theorem addNetwork_read {c : Circumstance answers reports} (hsent : d.sent)
    (hserved : Link.served d.acts = some (c,true)) (hid : nextId conn.server < 2^31) :
    ∃ (w' : Wrapper (supplicant F answers reports)) (conn' : Conn (supplicant F answers reports)),
      addNetwork cfg w [] = .ok (w',addReply c conn.server,0) ∧
      On w' (conn'.exchange (takes 1) (ascii "LIST_NETWORKS")).1 ∧ conn'.Idle (takes 1) ∧
      conn'.env = env ∧ conn'.server = (ctrlIfaceProcess c conn.server (ascii "ADD_NETWORK")).1 ∧
      conn'.done = conn.done ++ [(ascii "ADD_NETWORK",addReply c conn.server)] := by
  obtain ⟨w',hon,hadd⟩ := addNetwork_ask cfg h
  have henv := (Link.exchange_sent (takes 1) (ascii "ADD_NETWORK") conn).1
  have hx := hidle.exchange (skips_takes Nat.one_pos) (ascii "ADD_NETWORK")
  rw [Link.sending_of_env he,if_pos hsent] at hx
  rw [he] at henv
  simp only [Link.Answered,hserved] at hx
  obtain ⟨hi,hs,hd,hgot⟩ := hx
  have htakes : takes 1 ((supplicant F answers reports).server.serve c conn.server (ascii "ADD_NETWORK")).2 =
      true := takes_addReply c hid
  rw [htakes] at hgot
  have hgot : (conn.exchange (takes 1) (ascii "ADD_NETWORK")).2.2 = .got (addReply c conn.server) := hgot
  have htext := addReply_idText c hid
  have hshort := htext.short
  have hcstr : cstr ((addReply c conn.server).take 255) = addReply c conn.server := by
    rw [List.take_of_length_le (by omega),cstr_eq_self htext.noNul]
  rw [hgot] at hadd
  simp only [hcstr,if_neg (show ¬ 16 ≤ (addReply c conn.server).length by omega)] at hadd
  exact ⟨w',_,hadd,hon,hi,henv,hs,hd⟩

/-- Without the reply `network_id` stays empty. -/
theorem addNetwork_unread (hn : d.sent → ∀ c, Link.served d.acts ≠ some (c,true)) :
    ∃ w', addNetwork cfg w [] = .ok (w',[],-1) ∧
      On w' ((conn.exchange (takes 1) (ascii "ADD_NETWORK")).1.exchange (takes 1)
        (ascii "LIST_NETWORKS")).1 := by
  obtain ⟨w',hon,hadd⟩ := addNetwork_ask cfg h
  have hx := hidle.exchange (skips_takes Nat.one_pos) (ascii "ADD_NETWORK")
  have hgot : ∀ r, (conn.exchange (takes 1) (ascii "ADD_NETWORK")).2.2 ≠ .got r := by
    rw [Link.sending_of_env he] at hx
    cases hsent : d.sent with
    | false =>
      have hu := (Link.exchange_sent (takes 1) (ascii "ADD_NETWORK") conn).2
      rw [Link.sending_of_env he,hsent] at hu
      simp only [Bool.false_eq_true,if_false] at hu
      simp [hu.2]
    | true =>
      rw [if_pos hsent] at hx
      have hx : Link.Answered _ _ _ _ d.acts _ := hx
      unfold Link.Answered at hx
      cases hserved : Link.served d.acts with
      | none =>
        rw [hserved] at hx
        exact hx.2.2.2
      | some v =>
        obtain ⟨c,arrives⟩ := v
        rw [hserved] at hx
        cases arrives with
        | false => simpa using hx.2.2.2
        | true => exact absurd hserved (hn hsent c)
  refine ⟨w',?_,hon⟩
  rw [hadd]
  cases ho : (conn.exchange (takes 1) (ascii "ADD_NETWORK")).2.2 with
  | got r => exact absurd ho (hgot r)
  | unsent => rfl
  | failed => rfl
  | silence => rfl

end Opening

section Connect
variable {D : Daemon} {m : Machine} {cfg : BuildConfig} {w w₁ : Wrapper D} {config : WifiConfig}

/-- Without an id the call ends at once. -/
theorem connect_of_none (m : Machine) (config : WifiConfig)
    (ha : addNetwork cfg w [] = .ok (w₁,[],-1)) :
    connectSteps m cfg w config = .ok (w₁,[],false) ∧
      connectWifi m cfg w config = .ok (w₁,-1) := by
  have hs : connectSteps m cfg w config = .ok (w₁,[],false) := by
    unfold connectSteps
    rw [ha]
    rfl
  refine ⟨hs,?_⟩
  unfold connectWifi
  rw [hs]
  rfl

variable {id : Bytes} (ha : addNetwork cfg w [] = .ok (w₁,id,0))
include ha

theorem connectSteps_of_id {w₂ : Wrapper D} {connected : Bool}
    (hc : configureNetwork m cfg w₁ config id = .ok (w₂,connected)) :
    connectSteps m cfg w config = .ok (w₂,id,connected) := by
  unfold connectSteps
  rw [ha]
  simp [hc,bind,Except.bind,pure,Except.pure]

theorem connect_succeeded {w₂ : Wrapper D}
    (hc : configureNetwork m cfg w₁ config id = .ok (w₂,true)) :
    connectWifi m cfg w config = .ok (w₂,0) := by
  unfold connectWifi
  rw [connectSteps_of_id ha hc]
  rfl

theorem connect_faults {fault : Fault} (hc : configureNetwork m cfg w₁ config id = .error fault) :
    connectWifi m cfg w config = .error fault := by
  unfold connectWifi connectSteps
  rw [ha]
  simp [hc,bind,Except.bind]

/-- A failed step is followed by the two requests that take the network back. -/
theorem connect_failed (hi : IdText id) {w₂ : Wrapper D} {conn₂ : Conn D}
    (h₂ : On w₂ conn₂) (hc : configureNetwork m cfg w₁ config id = .ok (w₂,false)) :
    ∃ w', connectWifi m cfg w config = .ok (w',-1) ∧
      On w' (((conn₂.exchange (takes 1) (ascii "DISABLE_NETWORK" ++ 32 :: id)).1.exchange (takes 1)
        (removeRequest id)).1.exchange (takes 1) (ascii "LIST_NETWORKS")).1 := by
  obtain ⟨w₃,ret₃,hr₃,hon₃⟩ := disable_step cfg h₂ hi
  obtain ⟨w₄,ret₄,hr₄,hon₄⟩ := remove_step cfg hon₃ hi
  refine ⟨w₄,?_,hon₄⟩
  unfold connectWifi
  rw [connectSteps_of_id ha hc]
  simp [hi.word.1,hr₃,hr₄,bind,Except.bind,pure,Except.pure]

/-- Settings that are worked through are taken back if the network was not connected. -/
theorem connect_of_configured {conn₁ conn₂ : Conn D} (hi : IdText id) {w₂ : Wrapper D}
    {connected : Bool} (hc : configureNetwork m cfg w₁ config id = .ok (w₂,connected))
    (h₂ : On w₂ conn₂) (hs : Link.Sends (takes 1) (NetworkRequest id) conn₁ conn₂) :
    ∃ w' ret conn', connectSteps m cfg w config = .ok (w₂,id,connected) ∧
      connectWifi m cfg w config = .ok (w',ret) ∧ (ret = 0 ↔ connected = true) ∧ On w' conn' ∧
      Link.Sends (takes 1) (NetworkRequest id) conn₁ conn' := by
  have hsteps := connectSteps_of_id ha hc
  cases connected with
  | true =>
    exact ⟨w₂,0,conn₂,hsteps,connect_succeeded ha hc,by simp,h₂,hs⟩
  | false =>
    obtain ⟨w',hr,hon⟩ := connect_failed ha hi h₂ hc
    exact ⟨w',-1,_,hsteps,hr,by simp,hon,((hs.step .disable).step .remove).step .list⟩

/-- If nothing more happens, the setting of the SSID fails, and all of the rollback is sent. -/
theorem connect_silent {conn₁ : Conn D} (h₁ : On w₁ conn₁) (hi : IdText id)
    (hq : ∀ r ∈ conn₁.inbox, takes 1 r = false) (henv : conn₁.env = List.replicate 4 ⟨[],true,[]⟩)
    {ssid : CString} (hssid : config.ssidText = some ssid)
    (ho : ¬ Overfills kMaxArgs (setNetworkCmd id (ascii "ssid") ssid.bytes).bytes) :
    ∃ (w₂ w' : Wrapper D) (conn' : Conn D) (first : List Bytes),
      connectSteps m cfg w config = .ok (w₂,id,false) ∧
      connectWifi m cfg w config = .ok (w',-1) ∧ On w' conn' ∧
      (∀ q ∈ first, NetworkRequest id q) ∧ conn'.server = conn₁.server ∧ conn'.done = conn₁.done ∧
      conn'.waiting = conn₁.waiting ++ first ++ [ascii "DISABLE_NETWORK" ++ 32 :: id,removeRequest id,
        ascii "LIST_NETWORKS"] := by
  obtain ⟨-,hquiet,hask⟩ := set_step cfg h₁ hi ssid_name ssid.noNul
  have hset : ∃ w₂ conn₂ first env, configureNetwork m cfg w₁ config id = .ok (w₂,false) ∧
      On w₂ conn₂ ∧ (∀ q ∈ first, NetworkRequest id q) ∧
      conn₂.server = conn₁.server ∧ conn₂.done = conn₁.done ∧ conn₂.waiting = conn₁.waiting ++ first ∧
      (∀ r ∈ conn₂.inbox, takes 1 r = false) ∧ conn₂.env = List.replicate 3 ⟨[],true,[]⟩ ++ env := by
    by_cases hnil : valueWords id (ascii "ssid") ssid.bytes = []
    · obtain ⟨w₂,hr,hon⟩ := hquiet ho hnil
      have hr : setSsid cfg w₁ id ssid = .ok (w₂,-1) := hr
      refine ⟨w₂,conn₁,[],[⟨[],true,[]⟩],?_,hon,by simp,rfl,rfl,by simp,hq,henv⟩
      simp only [configureNetwork,hssid,hr]
      rfl
    · obtain ⟨w₂,ret,hr,hon,hret⟩ := hask ho hnil
      have hr : setSsid cfg w₁ id ssid = .ok (w₂,ret) := hr
      obtain ⟨he,hin,hs,hd,hw,hout⟩ := Link.exchange_silent (L := conn₁) henv hq
        (setRequest id (ascii "ssid") (valueWords id (ascii "ssid") ssid.bytes))
      have hne : ret ≠ 0 := by
        rw [ne_eq,hret,hout]
        simp
      refine ⟨w₂,_,[setRequest id (ascii "ssid") (valueWords id (ascii "ssid") ssid.bytes)],[],?_,hon,?_,?_⟩
      · simp only [configureNetwork,hssid,hr]
        exact if_pos hne
      · intro q hq
        rw [List.mem_singleton.mp hq]
        exact .set _ _
      · exact ⟨hs,hd,hw,by simp [hin],he⟩
  obtain ⟨w₂,conn₂,first,env,hc,h₂,hfirst,hs,hd,hw,hq₂,he⟩ := hset
  obtain ⟨w',hr,hon⟩ := connect_failed ha hi h₂ hc
  refine ⟨w₂,w',_,first,connectSteps_of_id ha hc,hr,hon,hfirst,?_⟩
  obtain ⟨he₃,hin₃,hs₃,hd₃,hw₃,-⟩ := Link.exchange_silent (L := conn₂) he hq₂
    (ascii "DISABLE_NETWORK" ++ 32 :: id)
  obtain ⟨he₄,hin₄,hs₄,hd₄,hw₄,-⟩ := Link.exchange_silent he₃ (by simp [hin₃]) (removeRequest id)
  obtain ⟨-,-,hs₅,hd₅,hw₅,-⟩ := Link.exchange_silent he₄ (by simp [hin₄]) (ascii "LIST_NETWORKS")
  exact ⟨hs₅.trans (hs₄.trans (hs₃.trans hs)),hd₅.trans (hd₄.trans (hd₃.trans hd)),by rw [hw₅,hw₄,hw₃,hw]; simp⟩

end Connect

theorem On.withEnv {D : Daemon} {w : Wrapper D} {conn : Conn D} (h : On w conn)
    (env : List (Delivery D.server)) : On (w.withEnv env) { conn with env := env } :=
  ⟨h.initialized,by simp [Wrapper.withEnv,h.connected],h.sized⟩

theorem idle_withEnv {D : Daemon} {conn : Conn D} (h : conn.Idle (takes 1))
    (env : List (Delivery D.server)) : Link.Idle (takes 1) { conn with env := env } :=
  ⟨h.settled,h.quiet⟩

section Refused
variable (m : Machine) (cfg : BuildConfig) {w : Wrapper (supplicant F answers reports)}
  {conn : Conn (supplicant F answers reports)} (h : On w conn) (hidle : conn.Idle (takes 1))
  (hid : nextId conn.server < 2^31) (config : WifiConfig)
  {d : Delivery (supplicant F answers reports).server} {c : Circumstance answers reports}
  (hsent : d.sent) (hserved : Link.served d.acts = some (c,true))
include h hidle hid hsent hserved

omit config in
/-- The hidden request is not sent, so that nothing is outstanding when the settings begin. -/
theorem addNetwork_unlisted (env : List (Delivery (supplicant F answers reports).server)) :
    ∃ (w₁ : Wrapper (supplicant F answers reports)) (conn₁ : Conn (supplicant F answers reports)),
      addNetwork cfg (w.withEnv (d :: ⟨[],false,[]⟩ :: env)) [] = .ok (w₁,addReply c conn.server,0) ∧
      On w₁ conn₁ ∧ conn₁.Idle (takes 1) ∧ conn₁.env = env ∧
      conn₁.server = (ctrlIfaceProcess c conn.server (ascii "ADD_NETWORK")).1 := by
  obtain ⟨w₁,conn₁,hadd,hon₁,hidle₁,henv,hserver,-⟩ :=
    addNetwork_read cfg (h.withEnv _) (idle_withEnv hidle (d :: ⟨[],false,[]⟩ :: env)) rfl hsent
      hserved hid
  have hlist := hidle₁.exchange (skips_takes Nat.one_pos) (ascii "LIST_NETWORKS")
  rw [Link.sending_of_env henv] at hlist
  have henv₂ := (Link.exchange_sent (takes 1) (ascii "LIST_NETWORKS") conn₁).1
  rw [henv] at henv₂
  exact ⟨w₁,_,hadd,hon₁,hlist.1,henv₂,hlist.2.1.trans hserver⟩

/-- A refused `ADD_NETWORK` does not stop the call, and nothing stops the rollback. -/
theorem connect_refused (hc : c.refusal.isSome) :
    ∃ env, (∃ fault, connectWifi m cfg (w.withEnv (d :: env)) config = .error fault) ∨
      ∃ (w₂ w' : Wrapper (supplicant F answers reports))
        (conn' : Conn (supplicant F answers reports)) (first : List Bytes),
        connectSteps m cfg (w.withEnv (d :: env)) config = .ok (w₂,failReply,false) ∧
        connectWifi m cfg (w.withEnv (d :: env)) config = .ok (w',-1) ∧
        w'.ctrlConn = some conn' ∧ (∀ q ∈ first, NetworkRequest failReply q) ∧
        conn'.server = conn.server ∧ conn'.done = conn.done ++ [(ascii "ADD_NETWORK",failReply)] ∧
        conn'.waiting = first ++ [ascii "DISABLE_NETWORK" ++ 32 :: failReply,
          removeRequest failReply,ascii "LIST_NETWORKS"] := by
  have h₀ := h.withEnv (d :: List.replicate 5 ⟨[],true,[]⟩)
  have hidle₀ := idle_withEnv hidle (d :: List.replicate 5 ⟨[],true,[]⟩)
  obtain ⟨w₁,conn₁,hadd,hon₁,hidle₁,henv,hserver,hdone⟩ :=
    addNetwork_read cfg h₀ hidle₀ rfl hsent hserved hid
  have hreply : addReply c conn.server = failReply := by
    rw [addReply_eq c hid,if_pos hc]
  have hserver : conn₁.server = conn.server :=
    hserver.trans (congrArg Prod.fst ((process_add c conn.server).trans (if_pos hc)))
  rw [hreply] at hadd hdone
  obtain ⟨he₂,hin₂,hs₂,hd₂,hw₂,-⟩ := Link.exchange_silent henv hidle₁.quiet (ascii "LIST_NETWORKS")
  refine ⟨List.replicate 5 ⟨[],true,[]⟩,?_⟩
  by_cases hs : ∀ ssid, config.ssidText = some ssid →
      Overfills kMaxArgs (setNetworkCmd failReply (ascii "ssid") ssid.bytes).bytes
  · obtain ⟨fault,hf⟩ := configure_ssid_faults cfg hon₁ (m := m) hs
    exact .inl ⟨fault,connect_faults hadd hf⟩
  obtain ⟨ssid,hs⟩ := not_forall.mp hs
  obtain ⟨hssid,ho⟩ := Classical.not_imp.mp hs
  obtain ⟨w₂,w',conn',first,hsteps,hr,hon,hfirst,hs₃,hd₃,hw₃⟩ := connect_silent hadd hon₁
    failReply_idText (m := m) (by simp [hin₂]) he₂ hssid ho
  refine .inr ⟨w₂,w',conn',ascii "LIST_NETWORKS" :: first,hsteps,hr,hon.connected,?_,
    hs₃.trans (hs₂.trans hserver),hd₃.trans (hd₂.trans hdone),?_⟩
  · intro q hq
    rcases List.mem_cons.mp hq with rfl | hq
    · exact .list
    · exact hfirst q hq
  · rw [hw₃,hw₂,hidle₁.settled]
    rfl

end Refused

/-- The daemon that may refuse a request with any text. -/
abbrev anySupplicant (F : SsidFields) : Daemon := supplicant F (fun _ => True) fun _ => True

/-- The circumstance in which a setting is answered with `OK`, whatever it is. -/
def accepting : AnyCircumstance := ⟨some ⟨okReply,okReply_choice⟩,⟨[],nil_choice⟩⟩

/-- A configuration that does not fit the id can lead to a fault. -/
theorem connect_unfit (m : Machine) (cfg : BuildConfig) {w : Wrapper (anySupplicant F)}
    {conn : Conn (anySupplicant F)} (h : On w conn) (hidle : conn.Idle (takes 1))
    (hid : nextId conn.server < 2^31) (config : WifiConfig)
    {d : Delivery (anySupplicant F).server} {c : AnyCircumstance} (hsent : d.sent)
    (hserved : Link.served d.acts = some (c,true))
    (hfit : ¬ ConfigFits m (addReply c conn.server) config) :
    ∃ env fault, connectWifi { m with missingArg := none } cfg (w.withEnv (d :: env)) config =
      .error fault := by
  obtain ⟨w₁,conn₁,hadd,hon₁,hidle₁,henv,-⟩ := addNetwork_unlisted cfg h hidle hid hsent hserved
    (List.replicate 2 (Link.atOnce accepting))
  obtain ⟨fault,hf⟩ := configure_faults cfg hon₁ (addReply_idText c hid) hfit hidle₁
    (c := accepting) henv (by rintro s q ⟨name,value,rfl⟩; rfl)
  exact ⟨_,fault,connect_faults hadd hf⟩

end WpaCliWrapper
