import WpaCliWrapper.CText.Cells
import WpaCliWrapper.Common.WpaCtrl

/-! `wpa_ctrl_request` against a peer that delivers datagrams of any length: every access to the
reply buffer is checked. -/
namespace WpaCliWrapper
open CText Exchange

variable {D : Daemon}

/-- The accesses that receiving a reply must not make: outside the buffer, and behind the NUL
that closes the reply. -/
inductive Overrun
  | buffer
  | text
  deriving DecidableEq

/-- What `select` and `recv` report while the wrapper waits. -/
inductive Arrival
  | datagram (data : Bytes)
  | failed

/-- The other end of the socket during one request: whether `send` works, and what arrives, one
thing after the other. The list ends when nothing more arrives in time. -/
structure Peer where
  sendable : Bool
  arrivals : List Arrival

structure Received where
  ret : ℤ
  reply : Bytes
  replyLen : ℕ
  messages : List Bytes

/-- `recv` stores at most `len` bytes of a datagram. -/
def recv (reply : Bytes) (len : ℕ) (datagram : Bytes) : Except Overrun Bytes :=
  let data := datagram.take len
  if data.length ≤ reply.length then .ok (overwrite reply data) else .error .buffer

/-- `res > 0 && reply[0] == '<'`. -/
def unsolicited (reply : Bytes) (res : ℕ) : Except Overrun Bool := do
  if 0 < res then return (← load .buffer reply 0) == 60 else return false

/-- The loop of `wpa_ctrl_request` that waits for the reply. -/
def receiveLoop (len : ℕ) (msgCb : Bool) :
    List Arrival → Bytes → List Bytes → Except Overrun Received
  | [], reply, messages => .ok ⟨-2,reply,len,messages⟩
  | .failed :: _, reply, messages => .ok ⟨-1,reply,len,messages⟩
  | .datagram datagram :: arrivals, reply, messages => do
    let reply ← recv reply len datagram
    let res := (datagram.take len).length
    if ← unsolicited reply res then
      if msgCb then
        let reply ← store .buffer reply (messageEnd len res) 0
        let text ← readString .buffer reply 0
        receiveLoop len msgCb arrivals reply (messages ++ [text])
      else receiveLoop len msgCb arrivals reply messages
    else return ⟨0,reply,res,messages⟩

def Peer.wpaCtrlRequest (peer : Peer) (reply : Bytes) (len : ℕ) (msgCb : Bool) :
    Except Overrun Received :=
  if !peer.sendable then .ok ⟨-1,reply,len,[]⟩ else receiveLoop len msgCb peer.arrivals reply []

/-- What the loop skips, and what ends it. -/
def waitFor (len : ℕ) : List Arrival → List Bytes × Outcome Bytes
  | [] => ([],.silence)
  | .failed :: _ => ([],.failed)
  | .datagram datagram :: arrivals =>
    if takes len datagram then ([],.got datagram)
    else (datagram :: (waitFor len arrivals).1,(waitFor len arrivals).2)

def Peer.outcome (peer : Peer) (len : ℕ) : List Bytes × Outcome Bytes :=
  if peer.sendable then waitFor len peer.arrivals else ([],.unsent)

/-- The reply that reaches the wrapper: the first datagram that does not start with `<`, unless
sending or receiving fails before. -/
def Peer.Delivers (peer : Peer) (datagram : Bytes) : Prop :=
  peer.sendable ∧ datagram.head? ≠ some 60 ∧ ∃ (messages : List Bytes) (rest : List Arrival),
    peer.arrivals = messages.map .datagram ++ .datagram datagram :: rest ∧
      ∀ m ∈ messages, m.head? = some 60

/-- What a request leaves in the buffer and gives back. -/
def received (len : ℕ) (msgCb : Bool) (reply : Bytes) (messages : List Bytes)
    (outcome : List Bytes × Outcome Bytes) : Received :=
  let reply := outcome.1.foldl (storeMessage len msgCb) reply
  let messages := messages ++ if msgCb then outcome.1.map (messageText len) else []
  match outcome.2 with
  | .unsent => ⟨-1,reply,len,messages⟩
  | .failed => ⟨-1,reply,len,messages⟩
  | .silence => ⟨-2,reply,len,messages⟩
  | .got datagram => ⟨0,overwrite reply (datagram.take len),(datagram.take len).length,messages⟩

/-- What arrives on the socket of a link while its acts go on. -/
def arrivalsOf : List (Act D.server) → Conn D → List Arrival
  | [], conn => conn.inbox.map .datagram
  | .error :: _, conn => conn.inbox.map .datagram ++ [.failed]
  | act :: acts, conn =>
    conn.inbox.map .datagram ++ arrivalsOf acts ({ conn with inbox := [] }.perform act)

/-- The peer that a request on a connection meets. -/
def peerOf (conn : Conn D) (cmd : Bytes) : Peer :=
  match conn.env with
  | [] => ⟨false,[]⟩
  | d :: env =>
    let M := Link.performAll { conn with env := env } d.before
    ⟨d.sent,arrivalsOf d.acts { M with waiting := M.waiting ++ [cmd] }⟩

section Loop
variable {len : ℕ} {reply : Bytes} {msgCb : Bool}

theorem recv_fits (h : len ≤ reply.length) (datagram : Bytes) :
    recv reply len datagram = .ok (overwrite reply (datagram.take len)) := by
  refine if_pos ?_
  rw [List.length_take]
  omega

theorem unsolicited_overwrite (reply datagram : Bytes) (len : ℕ) :
    unsolicited (overwrite reply (datagram.take len)) (datagram.take len).length =
      .ok (!takes len datagram) := by
  unfold unsolicited takes overwrite
  cases datagram.take len with
  | nil => rfl
  | cons c data =>
    change Except.ok (c == 60) = .ok (!(!(c == 60)))
    rw [Bool.not_not]

/-- A skipped message is terminated inside the buffer, and `msg_cb` gets its text. -/
theorem close_message (h : len ≤ reply.length) {datagram : Bytes} (ht : takes len datagram = false) :
    store Overrun.buffer (overwrite reply (datagram.take len))
        (messageEnd len (datagram.take len).length) 0 = .ok (storeMessage len true reply datagram) ∧
      readString Overrun.buffer (storeMessage len true reply datagram) 0 =
        .ok (messageText len datagram) := by
  unfold takes at ht
  unfold storeMessage messageText
  have hle : (datagram.take len).length ≤ len := List.length_take_le len datagram
  generalize datagram.take len = data at ht hle ⊢
  have hpos : 0 < data.length := by
    cases data with
    | nil => cases ht
    | cons c data => exact Nat.succ_pos _
  have hend : messageEnd len data.length ≤ data.length ∧ messageEnd len data.length < reply.length := by
    unfold messageEnd
    split <;> omega
  have hlen : (overwrite reply data).length = reply.length := overwrite_length (by omega)
  have htake : (overwrite reply data).take (messageEnd len data.length) =
      data.take (messageEnd len data.length) := List.take_append_of_le_length hend.1
  refine ⟨if_pos (by omega),?_⟩
  dsimp only
  rw [if_pos rfl,terminate,List.set_eq_take_append_cons_drop,if_pos (by omega),htake]
  exact readString_append [] _ _

theorem receiveLoop_eq (h : len ≤ reply.length) (arrivals : List Arrival) (messages : List Bytes) :
    receiveLoop len msgCb arrivals reply messages =
      .ok (received len msgCb reply messages (waitFor len arrivals)) := by
  induction arrivals generalizing reply messages with
  | nil => simp [receiveLoop,waitFor,received]
  | cons arrival arrivals ih =>
    cases arrival with
    | failed => simp [receiveLoop,waitFor,received]
    | datagram datagram =>
      rw [receiveLoop,recv_fits h,ok_bind]
      dsimp only
      rw [unsolicited_overwrite,ok_bind,waitFor]
      cases ht : takes len datagram with
      | true => simp [received]; rfl
      | false =>
        have hlen := storeMessage_length h msgCb datagram
        cases msgCb with
        | false =>
          have hnext := @ih (storeMessage len false reply datagram) (by omega) messages
          change receiveLoop len false arrivals (storeMessage len false reply datagram) messages = _
          rw [hnext]
          rfl
        | true =>
          obtain ⟨hstore,hread⟩ := close_message h ht
          have hnext := @ih (storeMessage len true reply datagram) (by omega)
            (messages ++ [messageText len datagram])
          simp only [Bool.not_false,if_true,hstore,hread,ok_bind,hnext]
          simp [received]

/-- A request never leaves a buffer that has the room it promises to `recv`. -/
theorem Peer.wpaCtrlRequest_eq (h : len ≤ reply.length) (peer : Peer) :
    peer.wpaCtrlRequest reply len msgCb = .ok (received len msgCb reply [] (peer.outcome len)) := by
  unfold Peer.wpaCtrlRequest Peer.outcome
  cases peer.sendable with
  | false => simp [received]
  | true => exact receiveLoop_eq h peer.arrivals []

theorem waitFor_skip {datagrams : List Bytes} (h : ∀ d ∈ datagrams, takes len d = false)
    (arrivals : List Arrival) : waitFor len (datagrams.map .datagram ++ arrivals) =
      (datagrams ++ (waitFor len arrivals).1,(waitFor len arrivals).2) := by
  induction datagrams with
  | nil => rfl
  | cons d datagrams ih =>
    have hd := h d List.mem_cons_self
    rw [List.map_cons,List.cons_append,waitFor,ih fun x hx => h x (List.mem_cons_of_mem d hx)]
    simp [hd]

theorem waitFor_got {pre rest : List Bytes} {d : Bytes} (h : ∀ x ∈ pre, takes len x = false)
    (hd : takes len d) (arrivals : List Arrival) :
    waitFor len ((pre ++ d :: rest).map .datagram ++ arrivals) = (pre,.got d) := by
  rw [List.map_append,List.append_assoc,waitFor_skip h]
  simp [waitFor,hd]

theorem takes_eq_head {len : ℕ} (h : 0 < len) (d : Bytes) : takes len d = (d.head? != some 60) := by
  rw [takes_eq h,takes]
  cases d <;> rfl

theorem waitFor_got_iff {arrivals : List Arrival} {d : Bytes} :
    (waitFor len arrivals).2 = .got d ↔ takes len d ∧ ∃ (pre : List Bytes) (rest : List Arrival),
      arrivals = pre.map .datagram ++ .datagram d :: rest ∧ ∀ m ∈ pre, takes len m = false := by
  constructor
  · intro h
    induction arrivals with
    | nil => cases h
    | cons arrival arrivals ih =>
      cases arrival with
      | failed => cases h
      | datagram x =>
        rw [waitFor] at h
        cases hx : takes len x with
        | true =>
          rw [hx] at h
          cases h
          exact ⟨hx,[],arrivals,rfl,by simp⟩
        | false =>
          rw [hx] at h
          obtain ⟨hd,pre,rest,harr,hpre⟩ := ih h
          exact ⟨hd,x :: pre,rest,by rw [harr]; rfl,by simpa [hx] using hpre⟩
  · rintro ⟨hd,pre,rest,rfl,hpre⟩
    rw [waitFor_skip hpre,waitFor,if_pos hd]

theorem Peer.outcome_got_iff (h : 0 < len) {peer : Peer} {d : Bytes} :
    (peer.outcome len).2 = .got d ↔ peer.Delivers d := by
  unfold Peer.outcome Peer.Delivers
  cases peer.sendable with
  | false => simp
  | true =>
    rw [if_pos rfl,waitFor_got_iff]
    simp [takes_eq_head h]

/-- At most one reply reaches the function. -/
theorem Peer.Delivers.eq {peer : Peer} {d d' : Bytes} (h : peer.Delivers d) (h' : peer.Delivers d') :
    d' = d := by
  have hgot := (outcome_got_iff Nat.one_pos).mpr h'
  rw [(outcome_got_iff Nat.one_pos).mpr h] at hgot
  cases hgot
  rfl

/-- Waiting on a link is waiting for what arrives on it. -/
theorem waitFor_arrivalsOf (acts : List (Act D.server)) (conn : Conn D) :
    waitFor len (arrivalsOf acts conn) = (conn.await (takes len) acts).2 := by
  induction acts generalizing conn with
  | nil =>
    rw [arrivalsOf,← List.append_nil (List.map _ _)]
    rcases conn.inbox_cases (takes len) with hq | ⟨pre,d,rest,hin,hpre,hd⟩
    · rw [waitFor_skip hq,Link.await_quiet_nil hq]
      simp [waitFor]
    · rw [hin,waitFor_got hpre hd,Link.await_got hin hpre hd]
  | cons act acts ih =>
    rcases conn.inbox_cases (takes len) with hq | ⟨pre,d,rest,hin,hpre,hd⟩
    · by_cases he : act = .error
      · rw [he,arrivalsOf,waitFor_skip hq,Link.await_quiet_error hq]
        simp [waitFor]
      · rw [Link.await_cons hq act acts he,arrivalsOf,waitFor_skip hq,ih]
        exact fun heq => he heq
    · rw [Link.await_got hin hpre hd]
      cases act <;> rw [arrivalsOf,hin,waitFor_got hpre hd]
      all_goals simp

end Loop

/-- On a connection the checked request is `wpa_ctrl_request` as the rest of the library uses it. -/
theorem wpaCtrlRequest_peerOf (conn : Conn D) (cmd : Bytes) {reply : Bytes} {len : ℕ}
    (h : len ≤ reply.length) (msgCb : Bool) :
    (peerOf conn cmd).wpaCtrlRequest reply len msgCb =
      let r := wpaCtrlRequest conn cmd reply len msgCb
      .ok ⟨r.ret,r.reply,r.replyLen,r.messages⟩ := by
  have hout : (peerOf conn cmd).outcome len = (conn.exchange (takes len) cmd).2 := by
    unfold peerOf Peer.outcome Link.exchange
    cases conn.env with
    | nil => rfl
    | cons d env =>
      cases hd : d.sent with
      | false => simp [hd]
      | true => simp only [hd,if_true,waitFor_arrivalsOf]
  rw [Peer.wpaCtrlRequest_eq h,hout,received,wpaCtrlRequest]
  dsimp only
  cases (conn.exchange (takes len) cmd).2.2 <;> simp

end WpaCliWrapper
