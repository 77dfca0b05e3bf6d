import Mathlib.Logic.Function.Basic
import WpaCliWrapper.CText.Decimal

/-! The monitors of the control interface: programs that attach to a socket of the daemon, and the
messages that it has for them. Messages wait in a queue while the socket is busy. -/

namespace WpaCliWrapper
open CText

section Types

inductive WpaMsgType
  | perInterface
  | global
  | noGlobal
  | onlyGlobal
  deriving DecidableEq

/-- `struct ctrl_iface_msg`, for the interface `wpaS`. -/
structure CtrlMsg where
  wpaS : ℕ
  level : ℤ
  type : WpaMsgType
  txt : Bytes
  deriving DecidableEq

/-- What `sendmsg` says: `ENOENT` or `EPERM`, `ENOBUFS` or `EAGAIN`, or another error. After the
second kind the socket is opened again, if that is possible. -/
inductive SendResult
  | sent
  | refused
  | full (reopened : Bool)
  | failed
  deriving DecidableEq

/-- `struct wpa_ctrl_dst` at the address `ptr`, with the packets that were meant for it, and those of
them that were sent or could not be sent. -/
structure WpaCtrlDst where
  ptr : ℕ
  addr : Bytes
  debugLevel : ℤ
  errors : ℕ
  wanted : List Bytes
  tries : List (Bytes × Bool)

/-- `struct ctrl_iface_priv` and `struct ctrl_iface_global_priv`, and what became of the messages for
the socket so far. -/
structure CtrlSock where
  sock : Bool
  ctrlDst : List WpaCtrlDst
  msgQueue : List CtrlMsg
  throttleCount : ℕ
  nextPtr : ℕ
  issued : List CtrlMsg
  handled : List CtrlMsg
  lost : List CtrlMsg

/-- What the system does while messages are sent: whether the socket is busy, whether there is
memory for a message that has to wait and for a timeout, and what becomes of each packet. -/
structure SockEnv where
  busy : ℕ → Bool
  mem : Bool
  timer : Bool
  results : ℕ → ℕ → SendResult

/-- A monitor that is not there any more was used. -/
inductive CtrlFault
  | freed

end Types

def msgInfo : ℤ := 3

namespace CtrlSock
variable (p : CtrlSock)

/-- A socket without monitors. -/
def init (sock : Bool) : CtrlSock := ⟨sock,[],[],0,0,[],[],[]⟩

section Attaching
variable (from' : Bytes)

/-- `ctrl_iface_attach` -/
def attach (mem : Bool) : CtrlSock × ℤ :=
  if mem then
    ({ p with ctrlDst := ⟨p.nextPtr,from',msgInfo,0,[],[]⟩ :: p.ctrlDst, nextPtr := p.nextPtr+1 },0)
  else (p,-1)

/-- `ctrl_iface_detach` -/
def detach : CtrlSock × ℤ :=
  if p.ctrlDst.any (·.addr = from') then
    ({ p with ctrlDst := p.ctrlDst.eraseP (·.addr = from') },0)
  else (p,-1)

/-- A change of the first entry with some property. -/
def updateDst (dsts : List WpaCtrlDst) (q : WpaCtrlDst → Bool) (f : WpaCtrlDst → WpaCtrlDst) :
    List WpaCtrlDst :=
  match dsts with
  | [] => []
  | dst :: rest => if q dst then f dst :: rest else dst :: updateDst rest q f

/-- `ctrl_iface_level` -/
def level (txt : Bytes) : CtrlSock × ℤ :=
  if p.ctrlDst.any (·.addr = from') then
    ({ p with ctrlDst := updateDst p.ctrlDst (·.addr = from') fun dst =>
        { dst with debugLevel := atoi txt } },0)
  else (p,-1)

/-- `wpa_supplicant_ctrl_iface_receive`, for the requests of monitors. `result` is what becomes of
the reply, which is the second component. -/
def receive (buf : Bytes) (mem : Bool) (result : SendResult) : Option (CtrlSock × Bytes) := do
  let attaches : Bool := buf = ascii "ATTACH"
  let (p,res) ← if attaches then some (p.attach from' mem)
    else if buf = ascii "DETACH" then some (p.detach from')
    else if (ascii "LEVEL ").isPrefixOf buf then some (p.level from' (buf.drop 6))
    else none
  let p := if result = .full false then { p with sock := false } else p
  let p := if result ≠ .sent ∧ attaches ∧ res = 0 then (p.detach from').1 else p
  return (p,ascii (if res = 0 then "OK\n" else "FAIL\n"))

/-- `wpa_supplicant_global_ctrl_iface_receive`: here `LEVEL` is no request of its own. -/
def receiveGlobal (buf : Bytes) (mem : Bool) : Option (CtrlSock × Bytes) := do
  let (p,res) ← if buf = ascii "ATTACH" then some (p.attach from' mem)
    else if buf = ascii "DETACH" then some (p.detach from')
    else none
  return (p,ascii (if res = 0 then "OK\n" else "FAIL\n"))

end Attaching

section Sending

/-- What is sent, unless the level is too long for `levelstr`. -/
def packet (ifname : Option Bytes) (msg : CtrlMsg) : Option Bytes :=
  let levelstr := ascii "<" ++ decimal msg.level ++ ascii ">"
  if levelstr.length < 10 then
    some ((ifname.elim [] fun name => ascii "IFNAME=" ++ name ++ ascii " ") ++ levelstr ++ msg.txt)
  else none

/-- A monitor after something was sent to it. -/
def noted (buf : Bytes) (ok : Bool) (dst : WpaCtrlDst) : WpaCtrlDst :=
  { dst with errors := if ok then 0 else dst.errors+1, tries := dst.tries ++ [(buf,ok)] }

/-- The loop of `wpa_supplicant_ctrl_iface_send` over the monitors at some addresses. -/
def sendLoop (results : ℕ → SendResult) (level : ℤ) (buf : Bytes) :
    List ℕ → CtrlSock → Except CtrlFault CtrlSock
  | [], p => .ok p
  | ptr :: next, p =>
    match p.ctrlDst.find? (·.ptr = ptr) with
    | none => .error .freed
    | some dst =>
      if level < dst.debugLevel then sendLoop results level buf next p
      else
        let dsts := updateDst p.ctrlDst (·.ptr = ptr) (noted buf (results ptr = .sent))
        let p' := { p with ctrlDst := dsts }
        if results ptr = .sent then sendLoop results level buf next p'
        else
          let p'' := if dst.errors+1 > 10 ∨ results ptr = .refused then (p'.detach dst.addr).1 else p'
          if results ptr = .full false then .ok { p'' with sock := false }
          else sendLoop results level buf next p''

/-- `wpa_supplicant_ctrl_iface_send` -/
def send (results : ℕ → SendResult) (ifname : Option Bytes) (msg : CtrlMsg) :
    Except CtrlFault CtrlSock :=
  let p := { p with handled := p.handled ++ [msg] }
  if p.sock = false ∨ p.ctrlDst = [] then .ok p
  else match packet ifname msg with
    | none => .ok p
    | some buf =>
      let meant := fun (dst : WpaCtrlDst) =>
        if msg.level < dst.debugLevel then dst else { dst with wanted := dst.wanted ++ [buf] }
      sendLoop results msg.level buf (p.ctrlDst.map WpaCtrlDst.ptr)
        { p with ctrlDst := p.ctrlDst.map meant }

/-- `wpas_ctrl_iface_throttle`: nothing can be said about a closed socket. -/
def throttle (env : SockEnv) (i : ℕ) : Bool := p.sock && env.busy i

variable (env : SockEnv) (ifname : CtrlMsg → Option Bytes)

/-- `wpas_ctrl_msg_send_pending_iface` and `wpas_ctrl_msg_send_pending_global` -/
def sendPending : ℕ → List CtrlMsg → CtrlSock → Except CtrlFault CtrlSock
  | _, [], p => .ok p
  | i, msg :: rest, p =>
    if p.throttle env i then .ok p
    else do sendPending (i+1) rest (← send { p with msgQueue := rest } (env.results i) (ifname msg) msg)

/-- `wpas_ctrl_msg_queue_limit` -/
def queueLimit : CtrlSock :=
  if p.throttleCount < 2000 then p
  else { p with msgQueue := p.msgQueue.tail, lost := p.lost ++ p.msgQueue.take 1 }

/-- `wpas_ctrl_msg_queue`, without the timeout. -/
def queueMsg (msg : CtrlMsg) : CtrlSock :=
  if env.mem then { p with msgQueue := p.msgQueue ++ [msg] } else { p with lost := p.lost ++ [msg] }

/-- What `wpa_supplicant_ctrl_iface_msg_cb` does for one socket. The second component says whether
the message waits. -/
def post (msg : CtrlMsg) : Except CtrlFault (CtrlSock × Bool) :=
  let p := { p with issued := p.issued ++ [msg] }
  if p.msgQueue ≠ [] ∨ p.throttle env 0 then
    let p := { p with throttleCount := (p.throttleCount+1)%2^32 }
    .ok (p.queueLimit.queueMsg env msg,env.mem)
  else do return (← send { p with throttleCount := 0 } (env.results 0) (ifname msg) msg,false)

end Sending

end CtrlSock

/-- The sockets of the daemon, and the interfaces for which `wpas_ctrl_msg_queue_timeout` is
registered. -/
structure CtrlIfaces where
  global : Option CtrlSock
  iface : ℕ → Option CtrlSock
  timers : ℕ → Bool

namespace CtrlIfaces
variable (s : CtrlIfaces) (ifname : ℕ → Bytes) (genv env : SockEnv)

/-- The name that goes in front of a message for the monitors of all interfaces. -/
def globalName (msg : CtrlMsg) : Option Bytes :=
  if msg.type ≠ .perInterface then none else some (ifname msg.wpaS)

/-- For a message that is queued the timeout is cancelled and registered again. Nobody looks whether
that was possible. -/
def timersFor (wpaS : ℕ) (waits registered : Bool) : ℕ → Bool :=
  Function.update s.timers wpaS (if waits then registered else s.timers wpaS)

def postGlobal (msg : CtrlMsg) : Except CtrlFault CtrlIfaces :=
  match s.global with
  | none => .ok s
  | some p =>
    if msg.type ≠ .noGlobal ∧ p.ctrlDst ≠ [] then do
      let (p',waits) ← p.post genv (globalName ifname) msg
      return { s with global := some p', timers := s.timersFor msg.wpaS waits genv.timer }
    else .ok s

def postIface (msg : CtrlMsg) : Except CtrlFault CtrlIfaces :=
  match s.iface msg.wpaS with
  | none => .ok s
  | some p =>
    if msg.type ≠ .onlyGlobal then do
      let (p',waits) ← p.post env (fun _ => none) msg
      return { s with
        iface := Function.update s.iface msg.wpaS (some p')
        timers := s.timersFor msg.wpaS waits env.timer }
    else .ok s

/-- `wpa_supplicant_ctrl_iface_msg_cb` -/
def msgCb (msg : CtrlMsg) : Except CtrlFault CtrlIfaces := do
  (← s.postGlobal ifname genv msg).postIface env msg

/-- `wpas_ctrl_msg_queue_timeout`, which is registered again while messages are left, if there is
memory for it. -/
def queueTimeout (wpaS : ℕ) : Except CtrlFault CtrlIfaces := do
  let g' ← s.global.mapM fun p => p.sendPending genv (globalName ifname) 0 p.msgQueue
  let p' ← (s.iface wpaS).mapM fun p => p.sendPending env (fun _ => none) 0 p.msgQueue
  let waits := fun (p : CtrlSock) => p.sock && !p.msgQueue.isEmpty
  return { global := g', iface := Function.update s.iface wpaS p'
           timers := Function.update s.timers wpaS ((g'.any waits || p'.any waits) && env.timer) }

/-- `wpa_supplicant_ctrl_iface_init` -/
def ifaceInit (wpaS : ℕ) (sock : Bool) : CtrlIfaces :=
  { s with iface := Function.update s.iface wpaS (some (.init sock)) }

/-- `wpa_supplicant_ctrl_iface_deinit`: what waits for the interface is dropped everywhere. -/
def ifaceDeinit (wpaS : ℕ) : CtrlIfaces :=
  { global := s.global.map fun p => { p with
      msgQueue := p.msgQueue.filter fun msg => msg.wpaS ≠ wpaS
      lost := p.lost ++ p.msgQueue.filter fun msg => msg.wpaS = wpaS }
    iface := Function.update s.iface wpaS none
    timers := Function.update s.timers wpaS false }

end CtrlIfaces

end WpaCliWrapper
