import WpaCliWrapper.Wrapper.Transport

/-! `wpa_cli_execute`: the tokenizer, the optional `IFNAME=` word, the lookup of the command and
its handler. -/
namespace WpaCliWrapper
open CText Exchange

variable {D : Daemon}

/-- The leading `IFNAME=<name>` word, which counts as such only if another word follows. -/
def stripIfname : List Bytes → Option Bytes × List Bytes
  | first :: second :: argv =>
    if hasPrefixCase first (ascii "IFNAME=") then (some (first.drop 7),second :: argv)
    else (none,first :: second :: argv)
  | argv => (none,argv)

/-- What stands in front of an interface name. -/
theorem ifname_head {first : Bytes} (h : hasPrefixCase first (ascii "IFNAME=")) :
    61 ∈ first ∧ first.head? ≠ some 34 ∧ ∀ c ∈ first.take 7, isBlank c = false := by
  obtain ⟨t,ht⟩ := List.isPrefixOf_iff_prefix.mp h
  have htake : (first.take 7).map toLower = ascii "ifname=" := by
    rw [List.map_take,← ht]
    rfl
  have hmem : ∀ c ∈ first.take 7, toLower c ∈ ascii "ifname=" := by
    intro c hc
    rw [← htake]
    exact List.mem_map_of_mem hc
  refine ⟨?_,fun hh => ?_,fun c hc => ?_⟩
  · have h61 : 61 ∈ (first.take 7).map toLower := by
      rw [htake]
      decide
    obtain ⟨c,hc,he⟩ := List.mem_map.mp h61
    rw [← toLower_eq he (by decide)]
    exact List.mem_of_mem_take hc
  · have hc : (34 : UInt8) ∈ first.take 7 := by
      cases first with
      | nil => cases hh
      | cons c rest =>
        cases hh
        simp
    exact absurd (hmem _ hc) (by decide)
  · by_contra hb
    have hb : isBlank c = true := by simpa using hb
    have hb : c = 32 ∨ c = 9 := by simpa [isBlank] using hb
    rcases hb with rfl | rfl
    · exact absurd (hmem _ hc) (by decide)
    · exact absurd (hmem _ hc) (by decide)

def ambiguousCommand (cfg : BuildConfig) (name : Bytes) : List Bytes :=
  [ascii "Ambiguous command '" ++ name ++ ascii "'; possible commands:"] ++
    (candidates cfg name).map (32 :: ·) ++ [ascii "\n"]

def unknownCommand (name : Bytes) : Bytes := ascii "Unknown command '" ++ name ++ ascii "'\n"

def wpaRequestWithResultBuf (cfg : BuildConfig) (w : Wrapper D) (argv : List Bytes) (buf : Bytes) :
    Except Fault (Result D) :=
  let w := { w with ifnamePrefix := (stripIfname argv).1 }
  match (stripIfname argv).2 with
  | [] => .ok ⟨w,-1,buf⟩
  | name :: args =>
    match selectCommand cfg name with
    | .ambiguous => .ok ⟨{ w with stdout := w.stdout ++ ambiguousCommand cfg name },1,buf⟩
    | .unknown => .ok ⟨w.print (unknownCommand name),1,buf⟩
    | .found cmd => cmd.handlerWithResults.run cfg w args buf

/-- `strcpy` copies the command into 1024 bytes; `buf` is the caller's buffer of `buf_len`
bytes. -/
def wpaCliExecute (cfg : BuildConfig) (w : Wrapper D) (cmd : CString) (buf : Bytes) :
    Except Fault (Result D) :=
  if !w.initialized then .ok ⟨w,-1,buf⟩
  else if 1024 ≤ cmd.bytes.length then .error .tmpCmd
  else do wpaRequestWithResultBuf cfg w (← parseLine cmd.bytes) buf

/-- What a line of words stands for: the interface, the plan of the handler it selects and
whether that handler refreshes the list of networks. -/
structure Command where
  ifname : Option Bytes
  plan : Plan
  updates : Bool
  deriving DecidableEq

def commandOf (cfg : BuildConfig) (argv : List Bytes) : Command :=
  let ifname := (stripIfname argv).1
  match (stripIfname argv).2 with
  | [] => ⟨ifname,.quiet [] (-1),false⟩
  | name :: args =>
    match selectCommand cfg name with
    | .ambiguous => ⟨ifname,.quiet (ambiguousCommand cfg name) 1,false⟩
    | .unknown => ⟨ifname,.quiet [unknownCommand name] 1,false⟩
    | .found cmd => ⟨ifname,cmd.handlerWithResults.plan cfg args,cmd.handlerWithResults.updates⟩

def Command.run (c : Command) (w : Wrapper D) (buf : Bytes) : Except Fault (Result D) :=
  let r := c.plan.run { w with ifnamePrefix := c.ifname } buf
  if c.updates then r.updateNetworks else .ok r

theorem wpaRequestWithResultBuf_eq (cfg : BuildConfig) (w : Wrapper D) (argv : List Bytes)
    (buf : Bytes) : wpaRequestWithResultBuf cfg w argv buf = (commandOf cfg argv).run w buf := by
  unfold wpaRequestWithResultBuf commandOf
  cases (stripIfname argv).2 with
  | nil => simp [Command.run,Plan.run]
  | cons name args =>
    dsimp only
    cases selectCommand cfg name with
    | ambiguous => rfl
    | unknown => rfl
    | found cmd => exact HandlerWithResults.run_eq cfg _ args buf _

/-- The words of a line that reach the handlers. -/
def lineWords (line : Bytes) : List Bytes := (words isBlank line).take kMaxArgs

/-- A command of fewer than 1024 bytes that does not overfill `argv` runs as its words say. -/
theorem wpaCliExecute_eq (cfg : BuildConfig) {w : Wrapper D} (hi : w.initialized) {cmd : CString}
    (hl : cmd.bytes.length < 1024) (ho : ¬ Overfills kMaxArgs cmd.bytes) (buf : Bytes) :
    wpaCliExecute cfg w cmd buf = (commandOf cfg (lineWords cmd.bytes)).run w buf := by
  have hp : parseLine cmd.bytes = .ok (lineWords cmd.bytes) := by
    unfold parseLine lineWords
    rw [parseArgs_eq,if_neg (by simp [ho])]
  unfold wpaCliExecute
  rw [if_neg (by simp [hi]),if_neg (by omega),hp]
  exact wpaRequestWithResultBuf_eq cfg w _ buf

/-- Every other command makes the wrapper write outside one of its arrays. -/
theorem wpaCliExecute_fault (cfg : BuildConfig) {w : Wrapper D} (hi : w.initialized)
    {cmd : CString} (h : 1024 ≤ cmd.bytes.length ∨ Overfills kMaxArgs cmd.bytes) (buf : Bytes) :
    wpaCliExecute cfg w cmd buf =
      .error (if 1024 ≤ cmd.bytes.length then .tmpCmd else .argv) := by
  unfold wpaCliExecute
  rw [if_neg (by simp [hi])]
  by_cases hl : 1024 ≤ cmd.bytes.length
  · rw [if_pos hl,if_pos hl]
  · have ho : Overfills kMaxArgs cmd.bytes := h.resolve_left hl
    have hp : parseLine cmd.bytes = .error .argv := by
      unfold parseLine
      rw [parseArgs_eq,if_pos ⟨ho,by decide⟩]
    rw [if_neg hl,if_neg hl,hp]
    rfl

/-- The datagram of a command, built in a buffer of `size` bytes. -/
def Command.request (c : Command) (size : ℕ) (text : Bytes) : Bytes :=
  match c.ifname with
  | none => text
  | some name => clip size (ifnameText name text)

/-- The whole text of the datagram, before any buffer cuts it. -/
def Command.wanted (c : Command) (text : Bytes) : Bytes :=
  match c.ifname with
  | none => text
  | some name => ifnameText name text

/-- The exchange of a command itself, for a caller's buffer of `n` bytes; the printing transport
has a buffer of its own. -/
def Command.first (c : Command) (n : ℕ) (conn : Conn D) :
    Conn D × List Bytes × Outcome Bytes :=
  match c.plan with
  | .quiet _ _ => (conn,[],.unsent)
  | .print text => conn.exchange (takes 4095) (c.request 4096 text)
  | .ask text => conn.exchange (takes (n-1)) (c.request n text)

/-- The hidden exchange of `update_networks`. -/
def Command.finish (c : Command) (conn : Conn D) : Conn D :=
  if c.updates then (conn.exchange (takes 4096) (ascii "LIST_NETWORKS")).1 else conn

def Plan.code (outcome : Outcome Bytes) : Plan → ℤ
  | .quiet _ code => code
  | _ => WpaCliWrapper.code outcome

theorem Command.first_sized {conn : Conn D} (h : Sized conn) (c : Command) (n : ℕ) :
    Sized (c.first n conn).1 := by
  unfold first
  split
  · exact h
  · exact (h.exchange _ _).1
  · exact (h.exchange _ _).1

theorem Command.finish_sized {conn : Conn D} (h : Sized conn) (c : Command) :
    Sized (c.finish conn) := by
  unfold finish
  split
  · exact (h.exchange _ _).1
  · exact h

/-- A command without what `update_networks` adds to it. -/
def Command.asked (c : Command) (w : Wrapper D) (buf : Bytes) : Result D :=
  c.plan.run { w with ifnamePrefix := c.ifname } buf

theorem Command.asked_connected (c : Command) {w : Wrapper D} {conn : Conn D}
    (h : w.ctrlConn = some conn) {buf : Bytes} (hn : 0 < buf.length) :
    ∃ out, (c.asked w buf).wrapper =
        { w with ifnamePrefix := c.ifname, ctrlConn := some (c.first buf.length conn).1,
                 stdout := out } ∧
      (c.asked w buf).ret = c.plan.code (c.first buf.length conn).2.2 ∧
      match c.plan with
      | .ask _ => (c.asked w buf).buf.length = buf.length ∧
          ∀ d, (c.first buf.length conn).2.2 = .got d →
            Holds (c.asked w buf).buf (d.take (buf.length-1))
      | _ => (c.asked w buf).buf = buf := by
  have h' : ({ w with ifnamePrefix := c.ifname } : Wrapper D).ctrlConn = some conn := h
  unfold asked first
  cases c.plan with
  | quiet messages code => exact ⟨_,by rw [Plan.run,← h],rfl,rfl⟩
  | print text =>
    obtain ⟨out,hw,hret,-⟩ := wpaCtrlCommand_connected h' text
    exact ⟨_,hw,hret,rfl⟩
  | ask text =>
    obtain ⟨out,hw,hlen,hret,hgot⟩ := ctrlCommand_connected h' text false hn
    exact ⟨_,hw,hret,hlen,fun d hd => (hgot d hd).1⟩

theorem Command.asked_disconnected (c : Command) {w : Wrapper D} (h : w.ctrlConn = none)
    (buf : Bytes) : ∃ out, c.asked w buf =
      ⟨{ w with ifnamePrefix := c.ifname, stdout := out },c.plan.code .unsent,buf⟩ := by
  have h' : ({ w with ifnamePrefix := c.ifname } : Wrapper D).ctrlConn = none := h
  unfold asked
  cases c.plan with
  | quiet messages code => exact ⟨_,rfl⟩
  | print text =>
    refine ⟨w.stdout ++ [notConnected],?_⟩
    rw [Plan.run,wpaCtrlCommand,ctrlCommand_disconnected h']
    rfl
  | ask text =>
    refine ⟨w.stdout ++ [notConnected],?_⟩
    rw [Plan.run,wpaCtrlCommandWithResults,ctrlCommand_disconnected h']
    rfl

/-- One command on a connected socket. -/
theorem Command.run_connected (c : Command) {w : Wrapper D} {conn : Conn D}
    (h : w.ctrlConn = some conn) (hs : Sized conn) {buf : Bytes} (hn : 0 < buf.length) :
    ∃ r networks out, c.run w buf = .ok r ∧
      r.wrapper = { w with ifnamePrefix := c.ifname,
                           ctrlConn := some (c.finish (c.first buf.length conn).1),
                           networks := networks, stdout := out } ∧
      r.ret = c.plan.code (c.first buf.length conn).2.2 ∧
      match c.plan with
      | .ask _ => r.buf.length = buf.length ∧ ∀ d, (c.first buf.length conn).2.2 = .got d →
          Holds r.buf (d.take (buf.length-1))
      | _ => r.buf = buf := by
  obtain ⟨out,hw,hret,hbuf⟩ := c.asked_connected h hn
  unfold run
  change ∃ r networks out, (if c.updates then (c.asked w buf).updateNetworks else .ok (c.asked w buf)) =
    .ok r ∧ _
  generalize c.asked w buf = r at *
  cases hu : c.updates with
  | false => exact ⟨r,w.networks,out,rfl,by rw [hw]; simp [finish,hu],hret,hbuf⟩
  | true =>
    have hc : r.wrapper.ctrlConn = some (c.first buf.length conn).1 := by rw [hw]
    obtain ⟨networks',hup⟩ := updateNetworks_connected hc (c.first_sized hs buf.length)
    refine ⟨{ r with wrapper := { r.wrapper with
      ctrlConn := some (c.finish (c.first buf.length conn).1), networks := networks' } },networks',
      out,?_,by rw [hw],hret,hbuf⟩
    simp only [Result.updateNetworks,hup,finish,hu]
    rfl

/-- Without a connection nothing is sent. -/
theorem Command.run_disconnected (c : Command) {w : Wrapper D} (h : w.ctrlConn = none)
    (buf : Bytes) : ∃ networks out, c.run w buf =
      .ok ⟨{ w with ifnamePrefix := c.ifname, networks := networks, stdout := out },
        c.plan.code .unsent,buf⟩ := by
  obtain ⟨out,hasked⟩ := c.asked_disconnected h buf
  rw [asked] at hasked
  unfold run
  rw [hasked]
  cases c.updates with
  | false => exact ⟨w.networks,out,rfl⟩
  | true =>
    refine ⟨[],out,?_⟩
    simp only [Result.updateNetworks]
    rw [updateNetworks_disconnected (by exact h)]
    rfl

/-- A connection on which nothing was sent yet. -/
def freshConn (s : D.State) : Conn D := ⟨s,[],[],[],[]⟩

def Wrapper.connected (conn : Conn D) : Wrapper D := ⟨true,some conn,none,[],[]⟩

theorem freshConn_idle (s : D.State) : (freshConn s : Conn D).Idle (takes 1) :=
  ⟨rfl,fun _ h => by cases h⟩

theorem freshConn_sized (s : D.State) : Sized (freshConn s : Conn D) := fun _ h => by cases h

/-- The same wrapper with other surroundings ahead of it. -/
def Wrapper.withEnv (w : Wrapper D) (env : List (Delivery D.server)) : Wrapper D :=
  { w with ctrlConn := w.ctrlConn.map fun conn => { conn with env := env } }

/-- Everything the wrapper handed to the socket so far. -/
def Wrapper.sent (w : Wrapper D) : List Bytes := w.ctrlConn.elim [] Link.sent

/-- The buffer holds the reply to request number `k` of the connection, and that request is
`q`; the reply is cut to the size of the buffer and terminated. -/
def HoldsReply (conn : Conn D) (k : ℕ) (q buf : Bytes) : Prop :=
  ∃ reply, conn.done[k]? = some (q,reply) ∧ Holds buf (reply.take (buf.length-1))

theorem HoldsReply.mono {conn conn' : Conn D} {k : ℕ} {q buf : Bytes} (h : HoldsReply conn k q buf)
    (hd : conn.done <+: conn'.done) : HoldsReply conn' k q buf := by
  obtain ⟨reply,hk,hb⟩ := h
  obtain ⟨rest,hrest⟩ := hd
  obtain ⟨hlt,-⟩ := List.getElem?_eq_some_iff.mp hk
  exact ⟨reply,by rw [← hrest,List.getElem?_append_left hlt,hk],hb⟩

theorem Command.finish_done (c : Command) (conn : Conn D) : conn.done <+: (c.finish conn).done := by
  unfold finish
  split
  · exact conn.exchange_done _ _
  · exact List.prefix_rfl

theorem Command.request_eq_wanted {c : Command} {size : ℕ} {text : Bytes}
    (h : ∀ name, c.ifname = some name → (ifnameText name text).length < size) :
    c.request size text = c.wanted text := by
  unfold request wanted
  cases hn : c.ifname with
  | none => rfl
  | some name => exact clip_eq_self (h name hn)

/-- Started with nothing outstanding, a command that asks gets the reply to its own request. -/
theorem Command.first_idle {c : Command} {conn : Conn D} {n : ℕ} {text : Bytes}
    (hc : c.plan = .ask text) (hi : conn.Idle (takes 1)) (hn : 2 ≤ n) {reply : Bytes}
    (hr : (c.first n conn).2.2 = .got reply) :
    (c.first n conn).1.done = conn.done ++ [(c.request n text,reply)] := by
  have ht : takes (n-1) = takes 1 := takes_eq (by omega)
  simp only [first,hc,ht] at hr ⊢
  have hx := hi.exchange (skips_takes Nat.one_pos) (c.request n text)
  have hs := (conn.exchange_sent (takes 1) (c.request n text)).2
  cases hsend : conn.sending with
  | none =>
    rw [hsend] at hs
    rw [hs.2] at hr
    cases hr
  | some acts =>
    rw [hsend] at hx
    simp only [Link.Answered] at hx
    cases hv : Link.served acts with
    | none =>
      rw [hv] at hx
      exact absurd hr (hx.2.2.2 reply)
    | some v =>
      rw [hv] at hx
      obtain ⟨-,-,hdone,ho⟩ := hx
      split at ho
      · rw [ho] at hr
        cases hr
        exact hdone
      · exact absurd hr (ho reply)

theorem Command.run_quiet {c : Command} {messages : List Bytes} {code : ℤ}
    (hp : c.plan = .quiet messages code) {w : Wrapper D} {buf : Bytes} {r : Result D}
    (h : c.run w buf = .ok r) : r.ret = code := by
  simp only [run,hp,Plan.run] at h
  split at h
  · simp only [Result.updateNetworks] at h
    cases hu : updateNetworks { w with ifnamePrefix := c.ifname, stdout := w.stdout ++ messages } with
    | error fault => rw [hu] at h; cases h
    | ok w' => rw [hu] at h; cases h; rfl
  · cases h; rfl

/-- With no surroundings left nothing more is sent. -/
theorem Command.finish_exhausted (c : Command) {conn : Conn D} (h : conn.env = []) :
    c.finish conn = conn := by
  unfold finish Link.exchange
  split <;> simp [h]

/-- A command that asks sends its datagram or nothing. -/
theorem Command.first_sent {c : Command} {text : Bytes} (hp : c.plan = .ask text) (n : ℕ)
    (conn : Conn D) : (c.first n conn).1.env = conn.env.tail ∧
      match conn.sending with
      | none => (c.first n conn).1.sent = conn.sent ∧ (c.first n conn).2.2 = .unsent
      | some _ => (c.first n conn).1.sent = conn.sent ++ [c.request n text] := by
  simp only [first,hp]
  obtain ⟨henv,hsent⟩ := conn.exchange_sent (takes (n-1)) (c.request n text)
  refine ⟨henv,?_⟩
  cases hs : conn.sending with
  | none => rwa [hs] at hsent
  | some acts => rw [hs] at hsent; exact hsent.1

theorem Command.finish_sent (c : Command) (conn : Conn D) :
    ∃ hidden, (c.finish conn).sent = conn.sent ++ hidden ∧
      ∀ q ∈ hidden, q = ascii "LIST_NETWORKS" := by
  unfold finish
  split
  · have hsent := (conn.exchange_sent (takes 4096) (ascii "LIST_NETWORKS")).2
    split at hsent
    · exact ⟨[],by rw [hsent.1,List.append_nil],by simp⟩
    · exact ⟨[ascii "LIST_NETWORKS"],hsent.1,by simp⟩
  · exact ⟨[],by rw [List.append_nil],by simp⟩

theorem Command.first_settle {c : Command} {n : ℕ} (hn : 2 ≤ n) {conn : Conn D}
    (hi : conn.Idle (takes 1)) (hs : Link.Settles conn.env) :
    (c.first n conn).1.Idle (takes 1) ∧ Link.Settles (c.first n conn).1.env := by
  unfold first
  split
  · exact ⟨hi,hs⟩
  · rw [takes_eq (show 0 < 4095 by decide)]
    exact hi.settle (skips_takes Nat.one_pos) hs _
  · rw [takes_eq (show 0 < n-1 by omega)]
    exact hi.settle (skips_takes Nat.one_pos) hs _

theorem Command.finish_settle {c : Command} {conn : Conn D} (hi : conn.Idle (takes 1))
    (hs : Link.Settles conn.env) :
    (c.finish conn).Idle (takes 1) ∧ Link.Settles (c.finish conn).env := by
  unfold finish
  split
  · rw [takes_eq (show 0 < 4096 by decide)]
    exact hi.settle (skips_takes Nat.one_pos) hs _
  · exact ⟨hi,hs⟩

theorem sized_of_idle {conn : Conn D} (h : conn.Idle (takes 1)) : Sized conn := by
  intro r hr ht
  rw [h.quiet r hr] at ht
  cases ht

theorem addNetwork_noNul : 0 ∉ ascii "add_network" := by decide

theorem commandOf_addNetwork (cfg : BuildConfig) :
    commandOf cfg (lineWords (ascii "add_network")) = ⟨none,.ask (ascii "ADD_NETWORK"),true⟩ := by
  have hwords : lineWords (ascii "add_network") = [ascii "add_network"] := by decide
  simp only [hwords,commandOf,stripIfname,select_add_network cfg]
  rfl

theorem status_noNul : 0 ∉ ascii "status" := by decide

theorem commandOf_status :
    commandOf (fun _ => false) (lineWords (ascii "status")) = ⟨none,.ask (ascii "STATUS"),false⟩ := by
  have hwords : lineWords (ascii "status") = [ascii "status"] := by decide
  simp only [hwords,commandOf,stripIfname,select_status]
  decide

end WpaCliWrapper
