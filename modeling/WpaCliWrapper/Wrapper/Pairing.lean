import WpaCliWrapper.Wrapper.Contract

/-! Runs of `wpa_cli_execute` calls on one connection: whose reply a call leaves in its buffer. -/
namespace WpaCliWrapper
open CText Exchange

/-- One call with what happens on the socket while it runs. -/
structure Call where
  cmd : CString
  buf : Bytes
  env : List (Delivery anyDaemon.server)

def Call.execute (cfg : BuildConfig) (w : Wrapper anyDaemon) (call : Call) :
    Except Fault (Result anyDaemon) :=
  wpaCliExecute cfg (w.withEnv call.env) call.cmd call.buf

/-- The wrapper after a sequence of calls. -/
def runCalls (cfg : BuildConfig) : Wrapper anyDaemon → List Call → Except Fault (Wrapper anyDaemon)
  | w, [] => .ok w
  | w, call :: calls => do runCalls cfg (← call.execute cfg w).wrapper calls

/-- If the call returns 0 after it sent a request, then its buffer holds the reply to the first
request it sent. -/
def PairedCall (cfg : BuildConfig) (w : Wrapper anyDaemon) (call : Call) : Prop :=
  ∃ r, call.execute cfg w = .ok r ∧ (r.ret = 0 →
    ∀ conn conn', w.ctrlConn = some conn → r.wrapper.ctrlConn = some conn' →
      conn.sent.length < conn'.sent.length → ∃ q, HoldsReply conn' conn.sent.length q r.buf)

/-- The command stays inside the arrays of the wrapper, and the caller's buffer has room for a
byte of the reply. -/
structure Call.Sound (call : Call) : Prop where
  short : call.cmd.bytes.length < 1024
  fits : ¬ Overfills kMaxArgs call.cmd.bytes
  room : 2 ≤ call.buf.length

/-- Nothing is outstanding on the connection. -/
def Wrapper.Clear (w : Wrapper anyDaemon) : Prop :=
  ∀ conn, w.ctrlConn = some conn → conn.Idle (takes 1) ∧ Sized conn

section Calls
variable {cfg : BuildConfig} {w : Wrapper anyDaemon} {call : Call}

variable (cfg) in
/-- A call all of whose requests settle leaves nothing outstanding. -/
theorem Call.execute_clear (hw : w.Clear) (hc : call.Sound) (hs : Link.Settles call.env) :
    ∃ r, call.execute cfg w = .ok r ∧ r.wrapper.Clear := by
  unfold Call.execute
  cases hi : (w.withEnv call.env).initialized with
  | false =>
    refine ⟨⟨w.withEnv call.env,-1,call.buf⟩,?_,fun conn hconn => ?_⟩
    · unfold wpaCliExecute
      rw [if_pos (by simp [hi])]
    · cases hw₀ : w.ctrlConn with
      | none => simp [Wrapper.withEnv,hw₀] at hconn
      | some conn₀ =>
        rw [Wrapper.withEnv_conn hw₀] at hconn
        cases hconn
        exact ⟨⟨(hw conn₀ hw₀).1.settled,(hw conn₀ hw₀).1.quiet⟩,(hw conn₀ hw₀).2⟩
  | true =>
    rw [wpaCliExecute_eq cfg hi hc.short hc.fits]
    generalize commandOf cfg (lineWords call.cmd.bytes) = c
    cases hw₀ : w.ctrlConn with
    | none =>
      obtain ⟨networks,out,hrun⟩ := c.run_disconnected (w := w.withEnv call.env)
        (by simp [Wrapper.withEnv,hw₀]) call.buf
      exact ⟨_,hrun,fun conn hconn => by simp [Wrapper.withEnv,hw₀] at hconn⟩
    | some conn₀ =>
      obtain ⟨hidle,hsized⟩ := hw conn₀ hw₀
      have hidle' : Link.Idle (takes 1) { conn₀ with env := call.env } := ⟨hidle.settled,hidle.quiet⟩
      have hsized' : Sized { conn₀ with env := call.env } := hsized
      have hroom := hc.room
      obtain ⟨r,networks,out,hrun,hr,-⟩ := c.run_connected (Wrapper.withEnv_conn hw₀ call.env)
        hsized' (show 0 < call.buf.length by omega)
      refine ⟨r,hrun,fun conn hconn => ?_⟩
      rw [hr] at hconn
      cases hconn
      obtain ⟨hi1,hs1⟩ := Command.first_settle (c := c) hroom hidle' hs
      exact ⟨(Command.finish_settle hi1 hs1).1,c.finish_sized (c.first_sized hsized' _)⟩

/-- A run of settled calls leaves nothing outstanding. -/
theorem runCalls_clear (calls : List Call) (hw : w.Clear)
    (h : ∀ call ∈ calls, call.Sound ∧ Link.Settles call.env) :
    ∃ w', runCalls cfg w calls = .ok w' ∧ w'.Clear := by
  induction calls generalizing w with
  | nil => exact ⟨w,rfl,hw⟩
  | cons call calls ih =>
    obtain ⟨hsound,hsettles⟩ := h call (by simp)
    obtain ⟨r,hr,hclear⟩ := Call.execute_clear cfg hw hsound hsettles
    obtain ⟨w',hrun,hw'⟩ := ih hclear fun c hc => h c (by simp [hc])
    exact ⟨w',by simp only [runCalls,hr]; exact hrun,hw'⟩

/-- A command that returns 0 without a request of its own sends no hidden one either. -/
theorem commandOf_quiet_zero {argv messages : List Bytes}
    (h : (commandOf cfg argv).plan = .quiet messages 0) : (commandOf cfg argv).updates = false := by
  cases hw : (stripIfname argv).2 with
  | nil => simp only [commandOf,hw]
  | cons name args =>
    cases hs : selectCommand cfg name with
    | ambiguous => simp only [commandOf,hw,hs]
    | unknown => simp only [commandOf,hw,hs]
    | found cmd =>
      simp only [commandOf,hw,hs] at h ⊢
      rcases HandlerWithResults.plan_quiet h with hneg | ⟨hset,-⟩
      · exact absurd hneg (by decide)
      · rw [hset]
        rfl

/-- With nothing outstanding before it, a call gets the reply to its own request. -/
theorem pairedCall_of_clear (hw : w.Clear) (hc : call.Sound)
    (hp : ∀ text, (commandOf cfg (lineWords call.cmd.bytes)).plan ≠ .print text) :
    PairedCall cfg w call := by
  obtain ⟨hl,ho,hroom⟩ := hc
  unfold PairedCall Call.execute
  cases hi : (w.withEnv call.env).initialized with
  | false =>
    refine ⟨⟨w.withEnv call.env,-1,call.buf⟩,?_,by simp⟩
    unfold wpaCliExecute
    rw [if_pos (by simp [hi])]
  | true =>
    rw [wpaCliExecute_eq cfg hi hl ho]
    generalize hcmd : commandOf cfg (lineWords call.cmd.bytes) = c at hp
    cases hw₀ : w.ctrlConn with
    | none =>
      obtain ⟨networks,out,hrun⟩ := c.run_disconnected (w := w.withEnv call.env)
        (by simp [Wrapper.withEnv,hw₀]) call.buf
      exact ⟨_,hrun,by simp⟩
    | some conn =>
      obtain ⟨hidle,hsized⟩ := hw conn hw₀
      have hidle : Link.Idle (takes 1) { conn with env := call.env } := ⟨hidle.settled,hidle.quiet⟩
      have hsized : Sized { conn with env := call.env } := hsized
      obtain ⟨r,networks,out,hrun,hr,hret,hbuf⟩ :=
        c.run_connected (Wrapper.withEnv_conn hw₀ call.env) hsized (show 0 < call.buf.length by omega)
      refine ⟨r,hrun,?_⟩
      rintro h0 conn₀ conn' ⟨⟩ hconn' hlt
      rw [hr] at hconn'
      cases hconn'
      cases hplan : c.plan with
      | print text => exact absurd hplan (hp text)
      | quiet messages code =>
        rw [hret,hplan] at h0
        have h0 : code = 0 := h0
        have hup := commandOf_quiet_zero (hcmd ▸ h0 ▸ hplan)
        rw [hcmd] at hup
        simp only [Command.finish,hup,Command.first,hplan] at hlt
        exact absurd hlt (lt_irrefl _)
      | ask text =>
        rw [hret,hplan] at h0
        rw [hplan] at hbuf
        obtain ⟨hlen,hbuf⟩ := hbuf
        obtain ⟨reply,hgot⟩ := code_nonneg h0.ge
        have hdone := c.first_idle hplan hidle hroom hgot
        have hk : conn.sent.length = conn.done.length := hidle.sent_length
        have hfirst : HoldsReply (c.first call.buf.length { conn with env := call.env }).1
            conn.sent.length (c.request call.buf.length text) r.buf :=
          ⟨reply,by simp [hdone,hk],hlen ▸ hbuf reply hgot⟩
        exact ⟨_,hfirst.mono (c.finish_done _)⟩

end Calls

/-- In every run on one connection, a call that returns 0 after sending a request leaves the reply
to that very request in its buffer, as long as every request of the calls before it is served
before the wait for it ends and the call is not one of the sub-options of `status`. -/
theorem pairedCall_run (cfg : BuildConfig) (w : Wrapper anyDaemon) (earlier : List Call)
    (last : Call) (hw : w.Clear)
    (hearlier : ∀ call ∈ earlier, call.Sound ∧ Link.Settles call.env) (hlast : last.Sound)
    (hstatus : ∀ text, (commandOf cfg (lineWords last.cmd.bytes)).plan ≠ .print text) :
    ∃ w', runCalls cfg w earlier = .ok w' ∧ PairedCall cfg w' last := by
  obtain ⟨w',hrun,hclear⟩ := runCalls_clear earlier hw hearlier
  exact ⟨w',hrun,pairedCall_of_clear hclear hlast hstatus⟩

section Late

def statusCall (env : List (Delivery anyDaemon.server)) : Call :=
  ⟨⟨ascii "status",status_noNul⟩,List.replicate 16 0,env⟩

def textReply (s : String) (h : (ascii s).length < replySize) : anyDaemon.Choice := ⟨ascii s,h⟩

theorem statusCall_command (env : List (Delivery anyDaemon.server)) :
    commandOf (fun _ => false) (lineWords (statusCall env).cmd.bytes) =
      ⟨none,.ask (ascii "STATUS"),false⟩ := commandOf_status

theorem statusCall_execute (w : Wrapper anyDaemon) (hi : w.initialized)
    (env : List (Delivery anyDaemon.server)) : (statusCall env).execute (fun _ => false) w =
      .ok (wpaCtrlCommandWithResults { w.withEnv env with ifnamePrefix := none } (ascii "STATUS")
        (List.replicate 16 0)) := by
  have hl : (statusCall env).cmd.bytes.length < 1024 := show (ascii "status").length < 1024 by decide
  have ho : ¬ Overfills kMaxArgs (statusCall env).cmd.bytes :=
    show ¬ Overfills kMaxArgs (ascii "status") by decide
  have he := wpaCliExecute_eq (fun _ => false) (w := w.withEnv env) hi hl ho (statusCall env).buf
  rw [statusCall_command] at he
  exact he

/-- The first call gives up, and the reply to it arrives while the second one waits. -/
def lateCalls : Call × Call :=
  (statusCall [⟨[],true,[]⟩],statusCall (Link.promptly (textReply "OLD" (by decide))))

theorem pairedCall_late : ∃ w', runCalls (fun _ => false) (.connected (freshConn ())) [lateCalls.1] =
    .ok w' ∧ ¬ PairedCall (fun _ => false) w' lateCalls.2 := by
  refine ⟨_,by simp only [runCalls,lateCalls]; rw [statusCall_execute _ rfl]; rfl,?_⟩
  rintro ⟨r,hr,hpaired⟩
  unfold lateCalls at hr
  rw [statusCall_execute _ rfl] at hr
  cases hr
  obtain ⟨q,reply,hk,-⟩ := hpaired rfl _ _ rfl rfl (by decide)
  have hk : none = some (q,reply) := hk
  cases hk

/-- After a call whose request settles, `status` gets its own reply. -/
theorem pairedCall_settled :
    ∃ w', runCalls (fun _ => false) (.connected (freshConn ()))
        [statusCall (Link.promptly (textReply "OLD" (by decide)))] = .ok w' ∧
      PairedCall (fun _ => false) w' lateCalls.2 := by
  refine pairedCall_run _ _ _ _ (fun conn hc => ?_) ?_ ⟨by decide,by decide,by decide⟩ ?_
  · cases hc
    exact ⟨freshConn_idle (D := anyDaemon) (),freshConn_sized (D := anyDaemon) ()⟩
  · intro call hcall
    rw [List.mem_singleton.mp hcall]
    refine ⟨⟨by decide,by decide,by decide⟩,fun d hd _ => ?_⟩
    rw [List.mem_singleton.mp hd]
    rfl
  · intro text
    change (commandOf _ (lineWords (statusCall []).cmd.bytes)).plan ≠ _
    rw [statusCall_command]
    simp

end Late

end WpaCliWrapper
