import WpaCliWrapper.Wrapper.Contract

/-! The two handlers of one row of the command table: whether the printing one and the
buffer-returning one do the same. -/
namespace WpaCliWrapper
open CText Exchange

/-- The first datagram sent on the way from one state of the wrapper to another. -/
def firstRequest (w w' : Wrapper anyDaemon) : Option Bytes :=
  (w'.sent.drop w.sent.length).head?

/-- Both handlers send the same first request and return the same code; a reply that the first
one prints is left in the buffer by the second one, as far as it fits. -/
def Agree (cfg : BuildConfig) (w : Wrapper anyDaemon) (row : WpaCliCmd) (argv : List Bytes)
    (buf : Bytes) : Prop :=
  ∃ w' ret r, row.handler.run cfg w argv = some (.ok (w',ret)) ∧
    row.handlerWithResults.run cfg w argv buf = .ok r ∧
    firstRequest w w' = firstRequest w r.wrapper ∧ ret = r.ret ∧
    (ret = 0 → (firstRequest w w').isSome →
      ∃ text, w'.stdout.getLast? = some text ∧ cstr r.buf = text.take (buf.length-1))

/-- The socket accepts the first request. -/
def accepts (env : List (Delivery anyDaemon.server)) : Bool := env.head?.any (·.sent)

/-- The condition, for a socket that accepts the first request or not: the command asks through
the caller's buffer, which cuts neither the request nor all of the reply, and no hidden request
is sent alone. -/
def AgreesWhen (cfg : BuildConfig) (w : Wrapper anyDaemon) (conn : Conn anyDaemon)
    (row : WpaCliCmd) (argv : List Bytes) (n : ℕ) (up : Bool) : Prop :=
  match row.handlerWithResults.plan cfg argv with
  | .quiet _ _ => row.handlerWithResults.updates = false ∨ up = false
  | .print _ => up = false
  | .ask text =>
    if up then
      (2 ≤ n ∨ ∃ r ∈ conn.inbox, takes 1 r) ∧
        ∀ name, w.ifnamePrefix = some name → n = 4096 ∨ (ifnameText name text).length < min n 4096
    else row.handlerWithResults.updates = false

/-- Only `status` has sub-options, and it never refreshes the list of networks. -/
theorem HandlerWithResults.plan_print {cfg : BuildConfig} {argv : List Bytes}
    {h : HandlerWithResults} {text : Bytes} (hp : h.plan cfg argv = .print text) :
    h.updates = false := by
  have hcmd : ∀ cmd minArgs, cmdPlan cmd minArgs argv ≠ .print text := by
    intro cmd minArgs
    unfold cmdPlan
    split <;> simp
  cases h with
  | removeNetwork => exact absurd hp (hcmd _ _)
  | addNetwork => cases hp
  | _ => rfl

theorem clip_eq_clip {n : ℕ} (hn : 1 ≤ n) (text : Bytes) :
    clip n text = clip 4096 text ↔ n = 4096 ∨ text.length < min n 4096 := by
  constructor
  · intro h
    have hl := congrArg List.length h
    simp only [clip,List.length_take] at hl
    omega
  · rintro (rfl | h)
    · rfl
    · rw [clip_eq_self (by omega),clip_eq_self (by omega)]

/-- The row as a command under the interface prefix of the wrapper. -/
def rowCommand (cfg : BuildConfig) (w : Wrapper anyDaemon) (row : WpaCliCmd) (argv : List Bytes) :
    Command :=
  ⟨w.ifnamePrefix,row.handlerWithResults.plan cfg argv,row.handlerWithResults.updates⟩

/-- A hidden request is the first datagram when the socket accepts it. -/
theorem finish_sent_iff {c : Command} {conn : Conn anyDaemon} :
    (c.finish conn).sent = conn.sent ↔ c.updates = false ∨ conn.sending = none := by
  unfold Command.finish
  cases c.updates with
  | false => simp
  | true =>
    have hx := (conn.exchange_sent (takes 4096) (ascii "LIST_NETWORKS")).2
    cases hs : conn.sending with
    | none => rw [hs] at hx; simpa using hx.1
    | some acts => rw [hs] at hx; simp [hx.1]

section Row
variable {cfg : BuildConfig} {w : Wrapper anyDaemon} {row : WpaCliCmd} {argv : List Bytes}
  {conn : Conn anyDaemon} (hrow : row ∈ wpaCliCommands cfg)
  (hd : row.handlerWithResults ≠ .default) (hc : w.ctrlConn = some conn) (hs : Sized conn)
include hrow hd hc hs

variable (argv) in
/-- Both runs of a row on a connected socket. -/
theorem runs_connected {buf : Bytes} (hn : 0 < buf.length) :
    ∃ w' r, row.handler.run cfg w argv =
        some (.ok (w',((rowCommand cfg w row argv).plan.printed w).2)) ∧
      w' = ((rowCommand cfg w row argv).plan.printed w).1 ∧
      row.handlerWithResults.run cfg w argv buf = .ok r ∧
      r.wrapper.sent = ((rowCommand cfg w row argv).finish
        ((rowCommand cfg w row argv).first buf.length conn).1).sent ∧
      r.ret = (rowCommand cfg w row argv).plan.code
        ((rowCommand cfg w row argv).first buf.length conn).2.2 ∧
      match (rowCommand cfg w row argv).plan with
      | .ask _ => ∀ d, ((rowCommand cfg w row argv).first buf.length conn).2.2 = .got d →
          Holds r.buf (d.take (buf.length-1))
      | _ => r.buf = buf := by
  have hprint := (commands_paired hrow).run_eq hd cfg w argv
  have hrun : row.handlerWithResults.run cfg w argv buf = (rowCommand cfg w row argv).run w buf :=
    HandlerWithResults.run_eq cfg w argv buf _
  obtain ⟨r,networks,out,hr,hw,hret,hbuf⟩ := (rowCommand cfg w row argv).run_connected hc hs hn
  refine ⟨_,r,hprint,rfl,hrun.trans hr,by rw [hw]; rfl,hret,?_⟩
  cases hplan : (rowCommand cfg w row argv).plan with
  | quiet messages code => rw [hplan] at hbuf; exact hbuf
  | print text => rw [hplan] at hbuf; exact hbuf
  | ask text => rw [hplan] at hbuf; exact hbuf.2

omit hrow hd hc hs in
/-- If the printing run sends nothing and the codes are the same, then the runs agree exactly when
the other one sends nothing either. -/
theorem agree_silent {buf : Bytes} {w' : Wrapper anyDaemon} {ret : ℤ} {r : Result anyDaemon}
    {hidden : List Bytes} (hprint : row.handler.run cfg w argv = some (.ok (w',ret)))
    (hrun : row.handlerWithResults.run cfg w argv buf = .ok r)
    (hnone : firstRequest w w' = none) (hsent : r.wrapper.sent = w.sent ++ hidden)
    (hret : ret = r.ret) : Agree cfg w row argv buf ↔ r.wrapper.sent = w.sent := by
  have hreq : firstRequest w r.wrapper = hidden.head? := by simp [firstRequest,hsent]
  constructor
  · rintro ⟨w'',ret',r',hprint',hrun',hreq',-⟩
    rw [hprint] at hprint'
    rw [hrun] at hrun'
    cases hprint'
    cases hrun'
    rw [hnone,hreq,eq_comm,List.head?_eq_none_iff] at hreq'
    rw [hsent,hreq',List.append_nil]
  · intro h
    have hnil : hidden = [] := by simpa [hsent] using h
    refine ⟨_,_,r,hprint,hrun,?_,hret,?_⟩
    · rw [hnone,hreq,hnil,List.head?_nil]
    · intro _ hsome
      rw [hnone] at hsome
      cases hsome

theorem agree_quiet {messages : List Bytes} {code : ℤ}
    (hp : row.handlerWithResults.plan cfg argv = .quiet messages code) {buf : Bytes}
    (hn : 0 < buf.length) :
    Agree cfg w row argv buf ↔
      (rowCommand cfg w row argv).updates = false ∨ conn.sending = none := by
  rw [← finish_sent_iff]
  obtain ⟨w',r,hprint,rfl,hrun,hsent,hret,-⟩ := runs_connected argv hrow hd hc hs hn
  have hplan : (rowCommand cfg w row argv).plan = .quiet messages code := hp
  have hfirst : (rowCommand cfg w row argv).first buf.length conn = (conn,[],.unsent) := by
    simp only [Command.first,hplan]
  rw [hplan] at hprint hret
  rw [hfirst] at hsent hret
  have hw : w.sent = conn.sent := by simp [Wrapper.sent,hc]
  have hnone : firstRequest w ((Plan.quiet messages code).printed w).1 = none := by
    simp [firstRequest,Plan.printed,Wrapper.sent]
  obtain ⟨hidden,hfin,-⟩ := (rowCommand cfg w row argv).finish_sent conn
  have hsilent := agree_silent hprint hrun hnone (by rw [hsent,hfin,hw]) hret.symm
  rwa [hsent,hw] at hsilent

omit hrow hd in
/-- The printing run of a command that sends a request. -/
theorem printed_connected {text : Bytes}
    (hp : (rowCommand cfg w row argv).plan.text = some text) :
    ((rowCommand cfg w row argv).plan.printed w).1.sent =
        (conn.exchange (takes 4095) (w.request 4096 text)).1.sent ∧
      ((rowCommand cfg w row argv).plan.printed w).2 =
        code (conn.exchange (takes 4095) (w.request 4096 text)).2.2 ∧
      ∀ d, (conn.exchange (takes 4095) (w.request 4096 text)).2.2 = .got d →
        ((rowCommand cfg w row argv).plan.printed w).1.stdout.getLast? = some (cstr d) := by
  obtain ⟨out,hw,hret,hgot⟩ := wpaCtrlCommand_connected hc text
  have hprinted : (rowCommand cfg w row argv).plan.printed w = wpaCtrlCommand w text := by
    cases hplan : (rowCommand cfg w row argv).plan with
    | quiet messages code => rw [hplan] at hp; cases hp
    | print t => rw [hplan] at hp; cases hp; rfl
    | ask t => rw [hplan] at hp; cases hp; rfl
  rw [hprinted]
  refine ⟨by rw [hw]; rfl,hret,fun d hd => ?_⟩
  obtain ⟨pre,rfl⟩ := hgot d hd
  have hlen := (hs.exchange 4095 (w.request 4096 text)).2 d hd (by decide)
  have htake : d.take 4095 = d := List.take_of_length_le (by unfold replySize at hlen; omega)
  rw [hw,htake]
  simp

/-- When nothing can be sent for the command itself, only a hidden request can make a difference. -/
theorem agree_unsent {text : Bytes} (hp : (rowCommand cfg w row argv).plan.text = some text)
    (hsend : conn.sending = none) {buf : Bytes} (hn : 0 < buf.length) :
    Agree cfg w row argv buf ↔ (rowCommand cfg w row argv).updates = false ∨
      ((rowCommand cfg w row argv).first buf.length conn).1.sending = none := by
  rw [← finish_sent_iff]
  obtain ⟨w',r,hprint,rfl,hrun,hsent,hret,-⟩ := runs_connected argv hrow hd hc hs hn
  obtain ⟨hsent₁,hret₁,-⟩ := printed_connected hc hs hp
  have hx := (conn.exchange_sent (takes 4095) (w.request 4096 text)).2
  rw [hsend] at hx
  rw [hx.1] at hsent₁
  rw [hx.2] at hret₁
  have hfirst : ((rowCommand cfg w row argv).first buf.length conn).1.sent = conn.sent ∧
      (rowCommand cfg w row argv).plan.code
        ((rowCommand cfg w row argv).first buf.length conn).2.2 = -1 := by
    cases hplan : (rowCommand cfg w row argv).plan with
    | quiet messages code => rw [hplan] at hp; cases hp
    | print t =>
      simp only [Command.first,hplan]
      have hx := (conn.exchange_sent (takes 4095) ((rowCommand cfg w row argv).request 4096 t)).2
      rw [hsend] at hx
      exact ⟨hx.1,by rw [hx.2]; rfl⟩
    | ask t =>
      have hx := (Command.first_sent hplan buf.length conn).2
      rw [hsend] at hx
      exact ⟨hx.1,by rw [hx.2]; rfl⟩
  have hw : w.sent = conn.sent := by simp [Wrapper.sent,hc]
  have hnone : firstRequest w ((rowCommand cfg w row argv).plan.printed w).1 = none := by
    simp [firstRequest,hsent₁,hw]
  obtain ⟨hidden,hfin,-⟩ := (rowCommand cfg w row argv).finish_sent
    ((rowCommand cfg w row argv).first buf.length conn).1
  rw [hfirst.1]
  rw [hfirst.1] at hfin
  have hcode : ((rowCommand cfg w row argv).plan.printed w).2 = r.ret := by
    rw [hret₁,hret,hfirst.2]
    rfl
  have hsilent := agree_silent hprint hrun hnone (by rw [hsent,hfin,hw]) hcode
  rwa [hsent,hw] at hsilent

/-- When the request of the command is sent, the two datagrams, outcomes and replies decide. -/
theorem agree_sent {text : Bytes} (hp : (rowCommand cfg w row argv).plan = .ask text)
    (hsend : conn.sending.isSome) {buf : Bytes} (hn : 0 < buf.length) :
    Agree cfg w row argv buf ↔
      w.request 4096 text = w.request buf.length text ∧
        code (conn.exchange (takes 4095) (w.request 4096 text)).2.2 =
          code (conn.exchange (takes (buf.length-1)) (w.request buf.length text)).2.2 ∧
        ∀ d e, (conn.exchange (takes 4095) (w.request 4096 text)).2.2 = .got d →
          (conn.exchange (takes (buf.length-1)) (w.request buf.length text)).2.2 = .got e →
          cstr (e.take (buf.length-1)) = (cstr d).take (buf.length-1) := by
  obtain ⟨w',r,hprint,rfl,hrun,hsent,hret,hbuf⟩ := runs_connected argv hrow hd hc hs hn
  have htext : (rowCommand cfg w row argv).plan.text = some text := by rw [hp]; rfl
  obtain ⟨hsent₁,hret₁,hout₁⟩ := printed_connected hc hs htext
  obtain ⟨acts,hacts⟩ := Option.isSome_iff_exists.mp hsend
  have hx := (conn.exchange_sent (takes 4095) (w.request 4096 text)).2
  rw [hacts] at hx
  rw [hx.1] at hsent₁
  have hfirst := (Command.first_sent hp buf.length conn).2
  rw [hacts] at hfirst
  obtain ⟨hidden,hfin,-⟩ := (rowCommand cfg w row argv).finish_sent
    ((rowCommand cfg w row argv).first buf.length conn).1
  rw [hfirst,List.append_assoc] at hfin
  have hfirst' : (rowCommand cfg w row argv).first buf.length conn =
      conn.exchange (takes (buf.length-1)) (w.request buf.length text) := by
    simp only [Command.first,hp]
    rfl
  rw [hp] at hret hbuf
  rw [hfirst'] at hret hbuf
  have hw : w.sent = conn.sent := by simp [Wrapper.sent,hc]
  have hreq₁ : firstRequest w ((rowCommand cfg w row argv).plan.printed w).1 =
      some (w.request 4096 text) := by simp [firstRequest,hsent₁,hw]
  have hreq : firstRequest w r.wrapper = some (w.request buf.length text) := by
    simp only [firstRequest,hsent,hw,hfin,List.drop_left]
    rfl
  have hret : r.ret = code (conn.exchange (takes (buf.length-1)) (w.request buf.length text)).2.2 :=
    hret
  have hbuf : ∀ d, (conn.exchange (takes (buf.length-1)) (w.request buf.length text)).2.2 = .got d →
      Holds r.buf (d.take (buf.length-1)) := hbuf
  constructor
  · rintro ⟨w'',ret,r',hprint',hrun',hreq',hret',htext'⟩
    rw [hprint] at hprint'
    rw [hrun] at hrun'
    cases hprint'
    cases hrun'
    rw [hret₁,hret] at hret'
    refine ⟨?_,hret',fun d e hd he => ?_⟩
    · rw [hreq₁,hreq] at hreq'
      exact Option.some.inj hreq'
    · obtain ⟨t,ht,hb⟩ := htext' (by rw [hret₁,hd]; rfl) (by rw [hreq₁]; rfl)
      rw [hout₁ d hd] at ht
      cases ht
      rw [← (hbuf e he).cstr_eq,hb]
  · rintro ⟨hq,hcode,htext'⟩
    refine ⟨_,_,r,hprint,hrun,?_,?_,fun h0 _ => ?_⟩
    · rw [hreq₁,hreq,hq]
    · rw [hret₁,hret,hcode]
    · rw [hret₁] at h0
      obtain ⟨d,hd⟩ := code_nonneg h0.ge
      obtain ⟨e,he⟩ := code_nonneg (hcode ▸ h0).ge
      exact ⟨cstr d,hout₁ d hd,by rw [(hbuf e he).cstr_eq,htext' d e hd he]⟩

/-- A sub-option of `status` leaves the caller's buffer alone although it reports success. -/
theorem not_agree_print {text d : Bytes} (hp : (rowCommand cfg w row argv).plan = .print text)
    (hsend : conn.sending.isSome) {n : ℕ} (hn : 1 ≤ n)
    (hgot : (conn.exchange (takes 4095) (w.request 4096 text)).2.2 = .got d) :
    ¬ Agree cfg w row argv (List.replicate n 1) := by
  have hlen : (List.replicate n (1 : UInt8)).length = n := List.length_replicate
  obtain ⟨w',r,hprint,rfl,hrun,-,-,hbuf⟩ :=
    runs_connected argv hrow hd hc hs (hlen.symm ▸ hn)
  obtain ⟨hsent₁,hret₁,hout₁⟩ := printed_connected hc hs (by rw [hp]; rfl)
  obtain ⟨acts,hacts⟩ := Option.isSome_iff_exists.mp hsend
  have hx := (conn.exchange_sent (takes 4095) (w.request 4096 text)).2
  rw [hacts] at hx
  have hw : w.sent = conn.sent := by simp [Wrapper.sent,hc]
  rw [hp] at hbuf
  rintro ⟨w'',ret,r',hprint',hrun',-,-,htext⟩
  rw [hprint] at hprint'
  rw [hrun] at hrun'
  cases hprint'
  cases hrun'
  obtain ⟨t,ht,hb⟩ := htext (by rw [hret₁,hgot]; rfl) (by simp [firstRequest,hsent₁,hx.1,hw])
  have hones : cstr (List.replicate n (1 : UInt8)) = List.replicate n 1 :=
    cstr_eq_self fun h => absurd (List.eq_of_mem_replicate h) (by decide)
  have hl := congrArg List.length hb
  rw [show r.buf = List.replicate n 1 from hbuf,hones,hlen,List.length_take] at hl
  omega

end Row

theorem accepts_eq (conn : Conn anyDaemon) (env : List (Delivery anyDaemon.server)) :
    accepts env = (Link.sending { conn with env := env }).isSome := by
  cases env with
  | nil => rfl
  | cons d env =>
    unfold accepts Link.sending
    cases hd : d.sent <;> simp [hd]

section Iff
variable {cfg : BuildConfig} {w : Wrapper anyDaemon} {row : WpaCliCmd} {argv : List Bytes}
  {conn : Conn anyDaemon} (hrow : row ∈ wpaCliCommands cfg)
  (hd : row.handlerWithResults ≠ .default) (hc : w.ctrlConn = some conn) (hs : Sized conn)
include hrow hd hc hs

theorem agree_of_when {n : ℕ} (hn : 1 ≤ n) {up : Bool}
    (hw : AgreesWhen cfg w conn row argv n up) {env : List (Delivery anyDaemon.server)}
    (hup : accepts env = up) {buf : Bytes} (hb : buf.length = n) :
    Agree cfg (w.withEnv env) row argv buf := by
  subst hb
  have hc' : (w.withEnv env).ctrlConn = some { conn with env := env } :=
    Wrapper.withEnv_conn hc env
  have hs' : Sized { conn with env := env } := hs
  rw [accepts_eq conn] at hup
  unfold AgreesWhen at hw
  cases hp : row.handlerWithResults.plan cfg argv with
  | quiet messages code =>
    rw [hp] at hw
    rw [agree_quiet hrow hd hc' hs' hp hn]
    refine hw.imp id fun h => ?_
    rw [h] at hup
    simpa using hup
  | print text =>
    have htext : (rowCommand cfg (w.withEnv env) row argv).plan.text = some text :=
      congrArg Plan.text hp
    rw [hp] at hw
    rw [show up = false from hw] at hup
    rw [agree_unsent hrow hd hc' hs' htext (by simpa using hup) hn]
    exact .inl (HandlerWithResults.plan_print hp)
  | ask text =>
    have htext : (rowCommand cfg (w.withEnv env) row argv).plan.text = some text :=
      congrArg Plan.text hp
    rw [hp] at hw
    cases up with
    | false =>
      rw [agree_unsent hrow hd hc' hs' htext (by simpa using hup) hn]
      exact .inl hw
    | true =>
      obtain ⟨hroom,hfit⟩ := hw
      rw [agree_sent hrow hd hc' hs' hp hup hn]
      have hq : (w.withEnv env).request 4096 text = (w.withEnv env).request buf.length text := by
        simp only [Wrapper.request,Wrapper.withEnv]
        cases hname : w.ifnamePrefix with
        | none => rfl
        | some name => exact ((clip_eq_clip hn _).mpr (hfit name hname)).symm
      rw [hq,takes_eq (show 0 < 4095 by decide)]
      rcases Nat.lt_or_ge 1 buf.length with h2 | h1
      · rw [takes_eq (show 0 < buf.length-1 by omega)]
        refine ⟨rfl,rfl,fun d e hdgot hegot => ?_⟩
        rw [hdgot] at hegot
        cases hegot
        exact cstr_take d _
      · -- a stale reply reaches both transports, and the buffer has no room for any of it
        obtain ⟨r,hr,ht⟩ := hroom.resolve_left (by omega)
        have h0 : buf.length-1 = 0 := by omega
        rw [h0]
        obtain ⟨d,hdgot⟩ := Link.exchange_queued (takes 1) ((w.withEnv env).request buf.length text)
          (L := { conn with env := env }) ⟨r,hr,ht⟩ hup
        obtain ⟨e,hegot⟩ := Link.exchange_queued (takes 0)
          ((w.withEnv env).request buf.length text) (L := { conn with env := env })
          ⟨r,hr,by simp [takes]⟩ hup
        refine ⟨rfl,by rw [hdgot,hegot]; rfl,fun d e _ _ => by simp [cstr]⟩

/-- The handlers send the same text if their buffers cut it at the same place or not at all. -/
theorem ifname_of_agree {n : ℕ} (hn : 1 ≤ n) {text : Bytes}
    (hp : row.handlerWithResults.plan cfg argv = .ask text) {buf : Bytes} (hlen : buf.length = n)
    (h : Agree cfg (w.withEnv [⟨[],true,[]⟩]) row argv buf) (name : Bytes)
    (hname : w.ifnamePrefix = some name) :
    n = 4096 ∨ (ifnameText name text).length < min n 4096 := by
  have hc' := Wrapper.withEnv_conn hc [⟨[],true,[]⟩]
  have hs' : Sized { conn with env := [⟨[],true,[]⟩] } := hs
  rw [agree_sent hrow hd hc' hs' hp rfl (hlen.symm ▸ hn),hlen] at h
  have hq := h.1
  simp only [Wrapper.request,Wrapper.withEnv,hname] at hq
  exact (clip_eq_clip hn _).mp hq.symm

/-- With a buffer of one byte a message is taken for the reply by one handler only, unless a reply
that came too late is taken by both. -/
theorem stale_of_agree {text : Bytes} (hp : row.handlerWithResults.plan cfg argv = .ask text)
    {buf : Bytes} (hlen : buf.length = 1)
    (h : Agree cfg (w.withEnv [⟨[],true,[.message []]⟩]) row argv buf) :
    ∃ r ∈ conn.inbox, takes 1 r = true := by
  by_contra hno
  have hquiet : ∀ r ∈ conn.inbox, takes 1 r = false := by
    intro r hr
    by_contra ht
    exact hno ⟨r,hr,by simpa using ht⟩
  have hc' := Wrapper.withEnv_conn hc [⟨[],true,[.message []]⟩]
  have hs' : Sized { conn with env := [⟨[],true,[.message []]⟩] } := hs
  rw [agree_sent hrow hd hc' hs' hp rfl (hlen.symm ▸ Nat.one_pos),hlen] at h
  have hcode := h.2.1
  obtain ⟨r,hgot,-⟩ := Link.exchange_mistaken (takes 0) (m := ([] : Bytes))
    ((w.withEnv [⟨[],true,[.message []]⟩]).request 1 text)
    (L := { conn with env := [⟨[],true,[.message []]⟩] }) rfl rfl
  rw [show 1-1 = 0 from rfl,hgot,takes_eq (show 0 < 4095 by decide),
    Link.exchange_skipped (m := ([] : Bytes)) (L := { conn with env := [⟨[],true,[.message []]⟩] })
      _ rfl hquiet rfl] at hcode
  exact absurd hcode (by simp [code])

theorem when_of_agree {n : ℕ} (hn : 1 ≤ n) {up : Bool}
    (h : ∀ env buf, accepts env = up → buf.length = n → Agree cfg (w.withEnv env) row argv buf) :
    AgreesWhen cfg w conn row argv n up := by
  have hlen : (List.replicate n (1 : UInt8)).length = n := List.length_replicate
  have hc' := fun env => Wrapper.withEnv_conn hc env
  have hs' : ∀ env, Sized { conn with env := env } := fun _ => hs
  unfold AgreesWhen
  cases hp : row.handlerWithResults.plan cfg argv with
  | quiet messages code =>
    cases up with
    | false => exact .inr rfl
    | true =>
      have ha := h [⟨[],true,[]⟩] _ rfl hlen
      rw [agree_quiet hrow hd (hc' _) (hs' _) hp (hlen.symm ▸ hn)] at ha
      exact .inl (ha.resolve_right (by simp [Link.sending]))
  | print text =>
    cases up with
    | false => rfl
    | true =>
      have ha := h (Link.promptly emptyReply) _ rfl hlen
      obtain ⟨d,hgot,-⟩ := Link.exchange_promptly (takes 4095)
        ((w.withEnv (Link.promptly emptyReply)).request 4096 text)
        (L := { conn with env := Link.promptly emptyReply }) rfl (takes_emptyReply 4095)
      exact absurd ha (not_agree_print hrow hd (hc' _) (hs' _) hp rfl hn hgot)
  | ask text =>
    cases up with
    | false =>
      -- only the second request is accepted
      have ha := h [⟨[],false,[]⟩,⟨[],true,[]⟩] _ rfl hlen
      have htext : (rowCommand cfg (w.withEnv [⟨[],false,[]⟩,⟨[],true,[]⟩]) row argv).plan.text =
          some text := congrArg Plan.text hp
      rw [agree_unsent hrow hd (hc' _) (hs' _) htext rfl (hlen.symm ▸ hn)] at ha
      refine ha.resolve_right ?_
      have hplan : (rowCommand cfg (w.withEnv [⟨[],false,[]⟩,⟨[],true,[]⟩]) row argv).plan =
        .ask text := hp
      obtain ⟨henv,-⟩ := Command.first_sent hplan (List.replicate n 1).length
        { conn with env := [⟨[],false,[]⟩,⟨[],true,[]⟩] }
      exact fun hnone => absurd (hnone.symm.trans (Link.sending_of_env henv)) (by simp)
    | true =>
      refine ⟨?_,ifname_of_agree hrow hd hc hs hn hp hlen (h _ _ rfl hlen)⟩
      rcases Nat.lt_or_ge n 2 with hlt | hge
      · have hn1 : n = 1 := by omega
        subst hn1
        exact .inr (stale_of_agree hrow hd hc hs hp hlen (h _ _ rfl hlen))
      · exact .inl hge

end Iff

/-- The two handlers of a row agree from the same connected state, whatever the daemon does,
exactly under the condition `AgreesWhen`. -/
theorem agree_iff (cfg : BuildConfig) (w : Wrapper anyDaemon) (conn : Conn anyDaemon)
    (hc : w.ctrlConn = some conn) (hs : Sized conn) (row : WpaCliCmd)
    (hrow : row ∈ wpaCliCommands cfg) (hd : row.handlerWithResults ≠ .default)
    (argv : List Bytes) (n : ℕ) (hn : 1 ≤ n) (up : Bool) :
    (∀ env buf, accepts env = up → buf.length = n → Agree cfg (w.withEnv env) row argv buf) ↔
      AgreesWhen cfg w conn row argv n up :=
  ⟨when_of_agree hrow hd hc hs hn,fun hw _ _ hup hb => agree_of_when hrow hd hc hs hn hw hup hb⟩

/-- On a fresh connection the two handlers of `enable_network` agree for a buffer of 64 bytes. -/
theorem agree_enable_network :
    AgreesWhen (fun _ => false) (.connected (freshConn ())) (freshConn ())
        ⟨ascii "enable_network",.enableNetwork,.enableNetwork⟩ [ascii "0"] 64 true ∧
    ∀ env buf, accepts env = true → buf.length = 64 →
      Agree (fun _ => false) ((Wrapper.connected (freshConn ())).withEnv env)
        ⟨ascii "enable_network",.enableNetwork,.enableNetwork⟩ [ascii "0"] buf := by
  have hw : AgreesWhen (fun _ => false) (.connected (freshConn ())) (freshConn ())
      ⟨ascii "enable_network",.enableNetwork,.enableNetwork⟩ [ascii "0"] 64 true :=
    ⟨.inl (by decide),fun name hname => by cases hname⟩
  exact ⟨hw,(agree_iff (fun _ => false) (.connected (freshConn ())) (freshConn ()) rfl
    (freshConn_sized _) _ (selectCommand_mem (select_enable_network _)) (by decide) _ 64
    (by decide) true).mpr hw⟩

/-- `remove_network` without an argument sends nothing and prints its usage in one handler, and
asks for the list of networks in the other one. -/
theorem agree_remove_network :
    ⟨ascii "remove_network",.removeNetwork,.removeNetwork⟩ ∈ wpaCliCommands (fun _ => false) ∧
    Wrapper.ctrlConn (.connected (freshConn ())) = some (freshConn () : Conn anyDaemon) ∧
    ¬ Agree (fun _ => false) ((Wrapper.connected (freshConn ())).withEnv [⟨[],true,[]⟩])
        ⟨ascii "remove_network",.removeNetwork,.removeNetwork⟩ [] (List.replicate 64 0) := by
  have hrow := selectCommand_mem (select_remove_network (fun _ => false))
  refine ⟨hrow,rfl,fun h => ?_⟩
  have hc := Wrapper.withEnv_conn (w := .connected (freshConn () : Conn anyDaemon)) rfl
    [⟨[],true,[]⟩]
  have hs : Sized { (freshConn () : Conn anyDaemon) with env := [⟨[],true,[]⟩] } :=
    freshConn_sized (D := anyDaemon) ()
  rw [agree_quiet hrow (by decide) hc hs rfl (by decide)] at h
  revert h
  simp [rowCommand,HandlerWithResults.updates,Link.sending]

end WpaCliWrapper
