import WpaCliWrapper.CText.Bytes
import WpaCliWrapper.Exchange.Rules

/-! `wpa_ctrl_request` over the control socket: the daemon as a datagram server and the one
request that the wrapper can have in flight. -/
namespace WpaCliWrapper
open CText Exchange

/-- The size of the buffer in which `wpa_supplicant_ctrl_iface_process` builds its reply. -/
def replySize : ℕ := 4096

/-- A daemon: what it replies to a request, and how the request changes its state, under a
choice made by its surroundings. Every reply fits the buffer it is built in. -/
structure Daemon where
  State : Type
  Choice : Type
  serve : Choice → State → Bytes → State × Bytes
  fits : ∀ c s q, (serve c s q).2.length < replySize

/-- Unsolicited messages of the daemon start with `<`. -/
def Daemon.server (D : Daemon) : Server Bytes Bytes where
  State := D.State
  Choice := D.Choice
  Message := Bytes
  serve := D.serve
  post m := 60 :: m

/-- A daemon that may answer every request with any text for which it has room. -/
def anyDaemon : Daemon where
  State := Unit
  Choice := { text : Bytes // text.length < replySize }
  serve c _ _ := ((),c.1)
  fits c _ _ := c.2

variable {D : Daemon}

/-- The connected socket of `struct wpa_ctrl`. -/
abbrev Conn (D : Daemon) := Link D.server

/-- `recv` with room for `len` bytes delivers a reply unless the first byte is `<`. -/
def takes (len : ℕ) (datagram : Bytes) : Bool := (datagram.take len).head? != some 60

/-- Where a message of `length` bytes is terminated for `msg_cb`. -/
def messageEnd (len length : ℕ) : ℕ := if length = len then len-1 else length

/-- An unsolicited message is read into the caller's buffer; for `msg_cb` it is terminated. -/
def storeMessage (len : ℕ) (msgCb : Bool) (buf datagram : Bytes) : Bytes :=
  let data := datagram.take len
  let buf := overwrite buf data
  if msgCb then terminate buf (messageEnd len data.length) else buf

/-- The text of a message as `msg_cb` gets it. -/
def messageText (len : ℕ) (datagram : Bytes) : Bytes :=
  let data := datagram.take len
  cstr (data.take (messageEnd len data.length))

structure RequestResult (D : Daemon) where
  conn : Conn D
  ret : ℤ
  reply : Bytes
  replyLen : ℕ
  messages : List Bytes

/-- The buffer `reply` and the size passed in `*reply_len` belong to the caller. Neither
`select` nor `recv` returns anything but -1 on failure. -/
def wpaCtrlRequest (conn : Conn D) (cmd reply : Bytes) (replyLen : ℕ) (msgCb : Bool) :
    RequestResult D :=
  let r := conn.exchange (takes replyLen) cmd
  let reply := r.2.1.foldl (storeMessage replyLen msgCb) reply
  let messages := if msgCb then r.2.1.map (messageText replyLen) else []
  match r.2.2 with
  | .unsent => ⟨r.1,-1,reply,replyLen,messages⟩
  | .failed => ⟨r.1,-1,reply,replyLen,messages⟩
  | .silence => ⟨r.1,-2,reply,replyLen,messages⟩
  | .got datagram =>
    let data := datagram.take replyLen
    ⟨r.1,0,overwrite reply data,data.length,messages⟩

/-- Every posted message is recognised, as long as one byte of it can be read. -/
theorem skips_takes {len : ℕ} (h : 0 < len) : Link.Skips D.server (takes len) := by
  intro m
  obtain ⟨n,rfl⟩ : ∃ n, len = n+1 := ⟨len-1,by omega⟩
  simp only [takes,Daemon.server]
  rfl

/-- With room for one byte, whether a datagram is a reply does not depend on the size. -/
theorem takes_eq {len : ℕ} (h : 0 < len) : takes len = takes 1 := by
  obtain ⟨n,rfl⟩ : ∃ n, len = n+1 := ⟨len-1,by omega⟩
  funext datagram
  cases datagram <;> rfl

/-- Every queued reply fits the buffer it was built in. -/
def Sized (conn : Conn D) : Prop := Link.Queued (·.length < replySize) (takes 1) conn

theorem Sized.exchange {conn : Conn D} (h : Sized conn) (len : ℕ) (q : Bytes) :
    Sized (conn.exchange (takes len) q).1 ∧
      ∀ r, (conn.exchange (takes len) q).2.2 = .got r → 0 < len → r.length < replySize := by
  obtain ⟨hs,hr⟩ := Link.Queued.exchange (S := D.server) (P := (·.length < replySize))
    (skips_takes Nat.one_pos) D.fits h (takes len) q
  refine ⟨hs,fun r hgot hlen => hr r hgot ?_⟩
  rw [← takes_eq hlen]
  exact Link.exchange_takes hgot

/-- The codes that a transport makes of an outcome. -/
def code : Outcome Bytes → ℤ
  | .unsent => -1
  | .failed => -1
  | .silence => -2
  | .got _ => 0

theorem code_nonneg {outcome : Outcome Bytes} (h : 0 ≤ code outcome) : ∃ r, outcome = .got r := by
  cases outcome with
  | got r => exact ⟨r,rfl⟩
  | unsent => simp [code] at h
  | failed => simp [code] at h
  | silence => simp [code] at h

theorem storeMessage_length {len : ℕ} {buf : Bytes} (h : len ≤ buf.length) (msgCb : Bool)
    (datagram : Bytes) : (storeMessage len msgCb buf datagram).length = buf.length := by
  have hd : (datagram.take len).length ≤ buf.length := by
    simp only [List.length_take]
    omega
  unfold storeMessage
  cases msgCb <;> simp [overwrite_length hd]

theorem foldl_storeMessage_length {len : ℕ} (msgCb : Bool) (ms : List Bytes) {buf : Bytes}
    (h : len ≤ buf.length) :
    (ms.foldl (storeMessage len msgCb) buf).length = buf.length := by
  induction ms generalizing buf with
  | nil => rfl
  | cons m ms ih =>
    have hm := storeMessage_length h msgCb m
    rw [List.foldl_cons,ih (by omega),hm]

/-- What a request does, given the room for its reply. -/
theorem wpaCtrlRequest_spec (conn : Conn D) (cmd : Bytes) {reply : Bytes} {len : ℕ}
    (h : len ≤ reply.length) (msgCb : Bool) :
    (wpaCtrlRequest conn cmd reply len msgCb).conn = (conn.exchange (takes len) cmd).1 ∧
      (wpaCtrlRequest conn cmd reply len msgCb).reply.length = reply.length ∧
      (wpaCtrlRequest conn cmd reply len msgCb).ret = code (conn.exchange (takes len) cmd).2.2 ∧
      ∀ r, (conn.exchange (takes len) cmd).2.2 = .got r →
        (wpaCtrlRequest conn cmd reply len msgCb).replyLen = (r.take len).length ∧
        ∃ buf, buf.length = reply.length ∧
          (wpaCtrlRequest conn cmd reply len msgCb).reply = overwrite buf (r.take len) := by
  have hfold := foldl_storeMessage_length msgCb
    (conn.exchange (takes len) cmd).2.1 h
  cases hx : (conn.exchange (takes len) cmd).2.2 with
  | unsent => simp [wpaCtrlRequest,hx,hfold,code]
  | failed => simp [wpaCtrlRequest,hx,hfold,code]
  | silence => simp [wpaCtrlRequest,hx,hfold,code]
  | got r =>
    have hr : (r.take len).length ≤ reply.length := by simp; omega
    have hlen := (overwrite_length (hfold ▸ hr)).trans hfold
    simp only [wpaCtrlRequest,hx,code]
    refine ⟨trivial,hlen,trivial,fun r' hr' => ?_⟩
    cases hr'
    exact ⟨rfl,_,hfold,rfl⟩

end WpaCliWrapper
