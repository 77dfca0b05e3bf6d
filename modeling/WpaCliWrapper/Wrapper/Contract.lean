import WpaCliWrapper.Wrapper.Execute

/-! The result of `wpa_cli_execute`: when a non-negative value means that the buffer holds the
reply to the command. -/
namespace WpaCliWrapper
open CText Exchange

/-- A non-negative result means that the request of the command was sent and the buffer holds
the reply to it. -/
def ResultContract (cfg : BuildConfig) (w : Wrapper anyDaemon) (cmd : CString) (buf : Bytes) :
    Prop :=
  ∃ r, wpaCliExecute cfg w cmd buf = .ok r ∧ (0 ≤ r.ret →
    ∃ conn conn' text, w.ctrlConn = some conn ∧ r.wrapper.ctrlConn = some conn' ∧
      (commandOf cfg (lineWords cmd.bytes)).plan.text = some text ∧ r.buf.length = buf.length ∧
      HoldsReply conn' conn.sent.length ((commandOf cfg (lineWords cmd.bytes)).wanted text) r.buf)

/-- The words of the line name no single command. -/
def Unrecognised (cfg : BuildConfig) (argv : List Bytes) : Prop :=
  ∃ name args, (stripIfname argv).2 = name :: args ∧ ∀ cmd, selectCommand cfg name ≠ .found cmd

/-- `set_network` without arguments only shows a list of variables. -/
def ShowsVariables (cfg : BuildConfig) (argv : List Bytes) : Prop :=
  ∃ name cmd, (stripIfname argv).2 = [name] ∧ selectCommand cfg name = .found cmd ∧
    cmd.handlerWithResults = .setNetwork

/-- The command is known and does not only print; the connection is clear of earlier replies,
and the buffer has room for the prefixed request and for one byte of a reply. -/
def MeetsContract (cfg : BuildConfig) (w : Wrapper anyDaemon) (cmd : CString) (n : ℕ) : Prop :=
  w.initialized = false ∨
    ¬ Unrecognised cfg (lineWords cmd.bytes) ∧ ¬ ShowsVariables cfg (lineWords cmd.bytes) ∧
    ∀ conn, w.ctrlConn = some conn →
      match (commandOf cfg (lineWords cmd.bytes)).plan with
      | .quiet _ _ => True
      | .print _ => False
      | .ask text => conn.Idle (takes 1) ∧ 2 ≤ n ∧
          ∀ name, (commandOf cfg (lineWords cmd.bytes)).ifname = some name →
            (ifnameText name text).length < n

theorem cmdPlan_quiet {cmd : Bytes} {minArgs : ℕ} {argv messages : List Bytes} {code : ℤ}
    (h : cmdPlan cmd minArgs argv = .quiet messages code) : code = -1 := by
  unfold cmdPlan at h
  split at h
  · cases h; rfl
  · cases h

/-- Only `set_network` without arguments reports success without a request. -/
theorem HandlerWithResults.plan_quiet {cfg : BuildConfig} {argv : List Bytes}
    {h : HandlerWithResults} {messages : List Bytes} {code : ℤ}
    (hp : h.plan cfg argv = .quiet messages code) : code < 0 ∨ h = .setNetwork ∧ argv = [] := by
  cases h with
  | status => simp only [plan] at hp; cases hs : statusOption cfg argv <;> simp [hs] at hp
  | setNetwork =>
    simp only [plan] at hp
    split at hp
    · rename_i h0
      exact .inr ⟨rfl,List.length_eq_zero_iff.mp h0⟩
    · split at hp
      · cases hp; exact .inl (by decide)
      · rw [cmdPlan_quiet hp]; exact .inl (by decide)
  | selectNetwork => rw [cmdPlan_quiet hp]; exact .inl (by decide)
  | enableNetwork => rw [cmdPlan_quiet hp]; exact .inl (by decide)
  | disableNetwork => rw [cmdPlan_quiet hp]; exact .inl (by decide)
  | removeNetwork => rw [cmdPlan_quiet hp]; exact .inl (by decide)
  | scan => rw [cmdPlan_quiet hp]; exact .inl (by decide)
  | default => simp only [plan] at hp; cases hp; exact .inl (by decide)
  | ifname => cases hp
  | listNetworks => cases hp
  | addNetwork => cases hp
  | saveConfig => cases hp
  | scanResults => cases hp

/-- The code of a command that sends nothing is negative, but for the two exceptions. -/
theorem commandOf_quiet {cfg : BuildConfig} {argv : List Bytes} {messages : List Bytes} {code : ℤ}
    (h : (commandOf cfg argv).plan = .quiet messages code) :
    code < 0 ∨ Unrecognised cfg argv ∨ ShowsVariables cfg argv := by
  cases hw : (stripIfname argv).2 with
  | nil =>
    simp only [commandOf,hw] at h
    cases h
    exact .inl (by decide)
  | cons name args =>
    cases hs : selectCommand cfg name with
    | ambiguous => exact .inr (.inl ⟨name,args,hw,by simp [hs]⟩)
    | unknown => exact .inr (.inl ⟨name,args,hw,by simp [hs]⟩)
    | found cmd =>
      simp only [commandOf,hw,hs] at h
      rcases HandlerWithResults.plan_quiet h with h | ⟨hset,rfl⟩
      · exact .inl h
      · exact .inr (.inr ⟨name,cmd,hw,hs,hset⟩)

/-- The two exceptions send nothing and report success. -/
theorem commandOf_exception {cfg : BuildConfig} {argv : List Bytes}
    (h : Unrecognised cfg argv ∨ ShowsVariables cfg argv) :
    ∃ messages code, (commandOf cfg argv).plan = .quiet messages code ∧ 0 ≤ code := by
  rcases h with ⟨name,args,hw,hs⟩ | ⟨name,cmd,hw,hs,hset⟩
  · cases hsel : selectCommand cfg name with
    | ambiguous => exact ⟨ambiguousCommand cfg name,1,by simp only [commandOf,hw,hsel],by decide⟩
    | unknown => exact ⟨[unknownCommand name],1,by simp only [commandOf,hw,hsel],by decide⟩
    | found cmd => exact absurd hsel (hs cmd)
  · refine ⟨[networkVariables],0,?_,le_refl _⟩
    simp only [commandOf,hw,hs,hset,HandlerWithResults.plan]
    rfl

/-- A command of at most fifteen words never overfills `argv`. -/
theorem not_overfills {line : Bytes} (h : (words isBlank line).length ≤ 15) :
    ¬ Overfills kMaxArgs line := by
  rintro ⟨hw,-⟩
  unfold kMaxArgs at hw
  omega

def emptyReply : anyDaemon.Choice := ⟨[],by decide⟩

theorem takes_emptyReply (len : ℕ) (s : anyDaemon.server.State) (q : Bytes) :
    takes len (anyDaemon.server.serve emptyReply s q).2 := by
  simp [anyDaemon,Daemon.server,takes,emptyReply]

section Meets
variable {cfg : BuildConfig} {w : Wrapper anyDaemon} {cmd : CString} {n : ℕ}

theorem contract_of_uninitialized (h : w.initialized = false) (buf : Bytes) :
    ResultContract cfg w cmd buf := by
  refine ⟨⟨w,-1,buf⟩,?_,fun h => absurd h (by simp)⟩
  unfold wpaCliExecute
  rw [if_pos (by simp [h])]

theorem contract_of_meets {conn : Conn anyDaemon} (hi : w.initialized)
    (hl : cmd.bytes.length < 1024) (ho : ¬ Overfills kMaxArgs cmd.bytes)
    (hc : w.ctrlConn = some conn) (hs : Sized conn) {buf : Bytes} (hn : 0 < buf.length)
    (hm : MeetsContract cfg w cmd buf.length) : ResultContract cfg w cmd buf := by
  obtain ⟨hrec,hvar,hm⟩ := hm.resolve_left (by simp [hi])
  have hm := hm conn hc
  unfold ResultContract
  rw [wpaCliExecute_eq cfg hi hl ho]
  generalize hcmd : commandOf cfg (lineWords cmd.bytes) = c at hm
  obtain ⟨r,networks,out,hrun,hw,hret,hbuf⟩ := c.run_connected hc hs hn
  refine ⟨r,hrun,fun h0 => ?_⟩
  cases hp : c.plan with
  | quiet messages code =>
    rw [hret,hp] at h0
    have hneg : code < 0 := by
      rcases commandOf_quiet (hcmd ▸ hp) with h | h | h
      · exact h
      · exact absurd h hrec
      · exact absurd h hvar
    exact absurd h0 (by simp only [Plan.code]; omega)
  | print text => rw [hp] at hm; cases hm
  | ask text =>
    rw [hp] at hm hbuf
    obtain ⟨hidle,h2,hfit⟩ := hm
    obtain ⟨hlen,hbuf⟩ := hbuf
    rw [hret,hp] at h0
    obtain ⟨reply,hgot⟩ := code_nonneg h0
    have hdone := c.first_idle hp hidle h2 hgot
    rw [c.request_eq_wanted hfit] at hdone
    have hk : conn.sent.length = conn.done.length := by simp [Link.sent,hidle.settled]
    have hfirst : HoldsReply (c.first buf.length conn).1 conn.sent.length (c.wanted text) r.buf :=
      ⟨reply,by simp [hdone,hk],hlen ▸ hbuf reply hgot⟩
    exact ⟨conn,_,text,hc,by rw [hw],rfl,hlen,hfirst.mono (c.finish_done _)⟩

theorem Wrapper.withEnv_conn {conn : Conn anyDaemon} (hc : w.ctrlConn = some conn)
    (env : List (Delivery anyDaemon.server)) :
    (w.withEnv env).ctrlConn = some { conn with env := env } := by
  simp [withEnv,hc]

theorem not_exception_of_contract (hi : w.initialized) (hl : cmd.bytes.length < 1024)
    (ho : ¬ Overfills kMaxArgs cmd.bytes) {buf : Bytes} (h : ResultContract cfg w cmd buf) :
    ¬ (Unrecognised cfg (lineWords cmd.bytes) ∨ ShowsVariables cfg (lineWords cmd.bytes)) := by
  intro hex
  obtain ⟨messages,code,hp,h0⟩ := commandOf_exception hex
  obtain ⟨r,hrun,hr⟩ := h
  rw [wpaCliExecute_eq cfg hi hl ho] at hrun
  obtain ⟨-,-,text,-,-,ht,-⟩ := hr (Command.run_quiet hp hrun ▸ h0)
  rw [hp] at ht
  cases ht

/-- What the contract says about a connected command that sends `text`. -/
theorem contract_connected {conn : Conn anyDaemon} (hi : w.initialized)
    (hl : cmd.bytes.length < 1024) (ho : ¬ Overfills kMaxArgs cmd.bytes)
    (hc : w.ctrlConn = some conn) (hs : Sized conn) (hn : 1 ≤ n) {buf : Bytes}
    (hlen : buf.length = n) (h : ResultContract cfg w cmd buf) {c : Command} (hcmd : commandOf cfg (lineWords cmd.bytes) = c)
    (text : Bytes) (ht : c.plan.text = some text)
    (hgot : ∃ reply, (c.first n conn).2.2 = .got reply) (henv : (c.first n conn).1.env = []) :
    (∀ text, c.plan = .print text → ∃ text : Bytes, Holds buf text) ∧
      ∃ reply, (c.first n conn).1.done[conn.sent.length]? = some (c.wanted text,reply) := by
  subst hlen
  obtain ⟨reply,hgot⟩ := hgot
  obtain ⟨r,hrun,hr⟩ := h
  rw [wpaCliExecute_eq cfg hi hl ho,hcmd] at hrun
  obtain ⟨r',networks,out,hrun',hw,hret,hbuf⟩ := c.run_connected hc hs hn
  rw [hrun] at hrun'
  cases hrun'
  have h0 : 0 ≤ r.ret := by
    rw [hret,hgot]
    cases hp : c.plan with
    | quiet messages code => rw [hp] at ht; cases ht
    | print text => exact le_refl _
    | ask text => exact le_refl _
  obtain ⟨conn',conn'',text',hc',hw',ht',-,reply',hdone,hholds⟩ := hr h0
  rw [hc] at hc'
  cases hc'
  rw [hw] at hw'
  cases hw'
  rw [hcmd,ht] at ht'
  cases ht'
  rw [hcmd,c.finish_exhausted henv] at hdone
  refine ⟨fun text hp => ?_,reply',hdone⟩
  rw [hp] at hbuf
  simp only at hbuf
  exact ⟨_,hbuf ▸ hholds⟩

theorem not_holds_ones (n : ℕ) (text : Bytes) : ¬ Holds (List.replicate n 1) text := by
  rintro ⟨rest,h⟩
  have h0 : (0 : UInt8) ∈ List.replicate n (1 : UInt8) := by rw [h]; simp
  exact absurd (List.eq_of_mem_replicate h0) (by decide)

/-- A buffer of one byte: a message is taken for the reply, because its first byte is not seen. -/
theorem two_of_contract {conn : Conn anyDaemon} (hi : w.initialized)
    (hl : cmd.bytes.length < 1024) (ho : ¬ Overfills kMaxArgs cmd.bytes)
    (hc : w.ctrlConn = some conn) (hs : Sized conn) (hn : 1 ≤ n) {buf : Bytes}
    (hlen : buf.length = n)
    (h : ResultContract cfg (w.withEnv [⟨[],true,[.message []]⟩]) cmd buf) {c : Command}
    (hcmd : commandOf cfg (lineWords cmd.bytes) = c) {text : Bytes} (hp : c.plan = .ask text) :
    2 ≤ n := by
  by_contra h1
  have hn1 : n = 1 := by omega
  subst hn1
  have hlt := conn.done_length_le
  have hmsg := contract_connected (w := w.withEnv [⟨[],true,[.message []]⟩]) hi hl ho
    (Wrapper.withEnv_conn hc _) hs hn hlen h hcmd
  obtain ⟨r,hgot,henv,hdone⟩ := Link.exchange_mistaken (takes 0) (m := ([] : Bytes))
    (c.request 1 text) (L := { conn with env := [⟨[],true,[.message []]⟩] }) rfl rfl
  obtain ⟨-,reply,hk⟩ := hmsg text (by rw [hp]; rfl)
    (by simpa only [Command.first,hp] using ⟨r,hgot⟩)
    (by simpa only [Command.first,hp] using henv)
  simp only [Command.first,hp] at hk
  rw [show 1-1 = 0 from rfl,hdone] at hk
  obtain ⟨hk,-⟩ := List.getElem?_eq_some_iff.mp hk
  change conn.sent.length < conn.done.length at hk
  omega

/-- The daemon answers the oldest waiting request at once. If the reply is the one to this request,
then no other was waiting and the request was complete. -/
theorem complete_of_contract {conn : Conn anyDaemon} (hi : w.initialized)
    (hl : cmd.bytes.length < 1024) (ho : ¬ Overfills kMaxArgs cmd.bytes)
    (hc : w.ctrlConn = some conn) (hs : Sized conn) (hn : 2 ≤ n) {buf : Bytes}
    (hlen : buf.length = n)
    (h : ResultContract cfg (w.withEnv (Link.promptly emptyReply)) cmd buf) {c : Command}
    (hcmd : commandOf cfg (lineWords cmd.bytes) = c) {text : Bytes} (hp : c.plan = .ask text) :
    conn.Idle (takes 1) ∧ ∀ name, c.ifname = some name → (ifnameText name text).length < n := by
  have hlt := conn.done_length_le
  have hprompt := contract_connected (w := w.withEnv (Link.promptly emptyReply)) hi hl ho
    (Wrapper.withEnv_conn hc _) hs (by omega) hlen h hcmd
  obtain ⟨r,hgot,henv,hcases⟩ := Link.exchange_promptly (takes (n-1)) (c.request n text)
    (L := { conn with env := Link.promptly emptyReply }) rfl (takes_emptyReply (n-1))
  obtain ⟨-,reply,hk⟩ := hprompt text (by rw [hp]; rfl)
    (by simpa only [Command.first,hp] using ⟨r,hgot⟩)
    (by simpa only [Command.first,hp] using henv)
  simp only [Command.first,hp] at hk
  obtain ⟨hklt,hkeq⟩ := List.getElem?_eq_some_iff.mp hk
  change conn.sent.length < _ at hklt
  rcases hcases with ⟨-,hdone⟩ | ⟨hquiet,old,rest,hwait,hdone,-⟩
  · rw [hdone] at hklt
    exact absurd hklt (by simp only; omega)
  · have hw : conn.waiting = [] := by
      rw [hdone] at hklt
      simp only [Link.sent,List.length_append,List.length_map,List.length_singleton] at hklt
      exact List.length_eq_zero_iff.mp (by omega)
    have hq : c.request n text = c.wanted text := by
      rw [hdone] at hk
      simp only [hw,List.nil_append,List.cons.injEq] at hwait
      exact (show _ ∧ r = reply by simpa [Link.sent,hw,← hwait.1] using hk).1
    have ht : takes (n-1) = takes 1 := takes_eq (by omega)
    refine ⟨⟨hw,ht ▸ hquiet⟩,fun name hname => ?_⟩
    simp only [Command.request,Command.wanted,hname] at hq
    rw [← hq]
    exact clip_length_lt _ (by omega)

theorem meets_of_contract (hn : 1 ≤ n) (hl : cmd.bytes.length < 1024)
    (ho : ¬ Overfills kMaxArgs cmd.bytes) (hs : ∀ conn, w.ctrlConn = some conn → Sized conn)
    (h : ∀ env buf, buf.length = n → ResultContract cfg (w.withEnv env) cmd buf) :
    MeetsContract cfg w cmd n := by
  cases hi : w.initialized with
  | false => exact .inl hi
  | true =>
    have hlen : (List.replicate n (1 : UInt8)).length = n := List.length_replicate
    have hex := not_exception_of_contract (w := w.withEnv []) hi hl ho (h [] _ hlen)
    refine .inr ⟨fun hr => hex (.inl hr),fun hv => hex (.inr hv),fun conn hc => ?_⟩
    have hs := hs conn hc
    generalize hcmd : commandOf cfg (lineWords cmd.bytes) = c
    cases hp : c.plan with
    | quiet messages code => trivial
    | print text =>
      -- the reply is printed, and the buffer keeps its bytes
      obtain ⟨r,hgot,henv,-⟩ := Link.exchange_promptly (takes 4095) (c.request 4096 text)
        (L := { conn with env := Link.promptly emptyReply }) rfl (takes_emptyReply 4095)
      obtain ⟨hprint,-⟩ := contract_connected (w := w.withEnv (Link.promptly emptyReply)) hi hl ho
        (Wrapper.withEnv_conn hc _) hs hn hlen (h _ _ hlen) hcmd text (by rw [hp]; rfl)
        (by simpa only [Command.first,hp] using ⟨r,hgot⟩)
        (by simpa only [Command.first,hp] using henv)
      obtain ⟨reply,hh⟩ := hprint text hp
      exact not_holds_ones _ _ hh
    | ask text =>
      have h2 := two_of_contract hi hl ho hc hs hn hlen (h _ _ hlen) hcmd hp
      obtain ⟨hidle,hfit⟩ := complete_of_contract hi hl ho hc hs h2 hlen (h _ _ hlen) hcmd hp
      exact ⟨hidle,h2,hfit⟩

theorem MeetsContract.withEnv (h : MeetsContract cfg w cmd n)
    (env : List (Delivery anyDaemon.server)) : MeetsContract cfg (w.withEnv env) cmd n := by
  rcases h with h | ⟨hrec,hvar,h⟩
  · exact .inl h
  · refine .inr ⟨hrec,hvar,fun conn hc => ?_⟩
    cases hw : w.ctrlConn with
    | none => simp [Wrapper.withEnv,hw] at hc
    | some conn' =>
      rw [Wrapper.withEnv_conn hw] at hc
      cases hc
      have h := h conn' hw
      split at h
      · trivial
      · exact h
      · exact ⟨⟨h.1.settled,h.1.quiet⟩,h.2⟩

theorem contract_of_disconnected (hi : w.initialized) (hl : cmd.bytes.length < 1024)
    (ho : ¬ Overfills kMaxArgs cmd.bytes) (hc : w.ctrlConn = none) (buf : Bytes)
    (hm : MeetsContract cfg w cmd n) : ResultContract cfg w cmd buf := by
  obtain ⟨hrec,hvar,-⟩ := hm.resolve_left (by simp [hi])
  unfold ResultContract
  rw [wpaCliExecute_eq cfg hi hl ho]
  obtain ⟨networks,out,hrun⟩ := (commandOf cfg (lineWords cmd.bytes)).run_disconnected hc buf
  refine ⟨_,hrun,fun h0 => ?_⟩
  cases hp : (commandOf cfg (lineWords cmd.bytes)).plan with
  | quiet messages code =>
    rw [hp] at h0
    rcases commandOf_quiet hp with h | h | h
    · exact absurd h0 (by simp only [Plan.code]; omega)
    · exact absurd h hrec
    · exact absurd h hvar
  | print text => rw [hp] at h0; simp [Plan.code,code] at h0
  | ask text => rw [hp] at h0; simp [Plan.code,code] at h0

end Meets

/-- Whatever the daemon and the socket do, a non-negative result of `wpa_cli_execute` means that
the buffer holds the reply to the command, exactly under the condition `MeetsContract`. -/
theorem resultContract_iff (cfg : BuildConfig) (w : Wrapper anyDaemon) (cmd : CString) (n : ℕ)
    (hn : 1 ≤ n) (hw : (words isBlank cmd.bytes).length ≤ 15) (hl : cmd.bytes.length < 1024)
    (hs : ∀ conn, w.ctrlConn = some conn → Sized conn) :
    (∀ env buf, buf.length = n → ResultContract cfg (w.withEnv env) cmd buf) ↔
      MeetsContract cfg w cmd n := by
  have ho := not_overfills hw
  refine ⟨meets_of_contract hn hl ho hs,fun hm env buf hb => ?_⟩
  have hm := hm.withEnv env
  cases hi : (w.withEnv env).initialized with
  | false => exact contract_of_uninitialized hi buf
  | true =>
    cases hc : w.ctrlConn with
    | none => exact contract_of_disconnected hi hl ho (by simp [Wrapper.withEnv,hc]) buf hm
    | some conn =>
      exact contract_of_meets hi hl ho (Wrapper.withEnv_conn hc env) (hs conn hc) (hb ▸ hn)
        (hb ▸ hm)

/-- On a fresh connection `status` meets the contract with a buffer of 64 bytes. -/
theorem resultContract_status :
    MeetsContract (fun _ => false) (.connected (freshConn ())) ⟨ascii "status",by decide⟩ 64 ∧
    ∀ env buf, buf.length = 64 → ResultContract (fun _ => false)
      (Wrapper.withEnv (.connected (freshConn ())) env) ⟨ascii "status",by decide⟩ buf := by
  have hw : lineWords (ascii "status") = [ascii "status"] := by decide
  have hsel := select_status (fun _ => false)
  have hc : commandOf (fun _ => false) [ascii "status"] = ⟨none,.ask (ascii "STATUS"),false⟩ := by
    simp only [commandOf,stripIfname,hsel]
    decide
  have hm : MeetsContract (fun _ => false) (.connected (freshConn ()))
      ⟨ascii "status",by decide⟩ 64 := by
    unfold MeetsContract
    rw [hw,hc]
    refine .inr ⟨?_,?_,fun conn hconn => ?_⟩
    · rintro ⟨name,args,h,hs⟩
      cases h
      exact hs _ hsel
    · rintro ⟨name,cmd,h,hs,hset⟩
      cases h
      rw [hsel] at hs
      cases hs
      cases hset
    · cases hconn
      exact ⟨freshConn_idle _,by decide,fun name h => by cases h⟩
  refine ⟨hm,(resultContract_iff _ _ _ 64 (by decide) (by decide) (by decide) ?_).mpr hm⟩
  rintro conn ⟨⟩
  exact freshConn_sized (D := anyDaemon) ()

/-- The result for an unknown word is 1, although nothing was sent. -/
theorem resultContract_unknown :
    (words isBlank (ascii "frobnicate")).length ≤ 15 ∧ (ascii "frobnicate").length < 1024 ∧
    ¬ ResultContract (fun _ => false) (Wrapper.connected (freshConn ()))
        ⟨ascii "frobnicate",by decide⟩ (List.replicate 64 0) := by
  refine ⟨by decide,by decide,fun h => ?_⟩
  have hs : selectCommand (fun _ => false) (ascii "frobnicate") = .unknown := by decide +kernel
  exact not_exception_of_contract rfl (by decide) (by decide) h
    (.inl ⟨ascii "frobnicate",[],by decide +kernel,fun cmd hf => by rw [hs] at hf; cases hf⟩)

end WpaCliWrapper
