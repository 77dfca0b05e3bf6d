import Mathlib.Algebra.Ring.Int.Defs
import Mathlib.Algebra.Ring.Nat
import WpaCliWrapper.Exchange.Agenda

/-! The timeouts of the event loop, `src/utils/eloop.c`. -/

namespace WpaCliWrapper

/-- A time or a duration, in seconds and microseconds. -/
abbrev RelTime := ℤ × ℤ

/-- `os_reltime_before` -/
def isBefore (a b : RelTime) : Bool := a.1 < b.1 || a.1 = b.1 && a.2 < b.2

/-- `os_reltime_sub` -/
def relTimeSub (a b : RelTime) : RelTime :=
  if a.2-b.2 < 0 then (a.1-b.1-1,a.2-b.2+1000000) else (a.1-b.1,a.2-b.2)

/-- `while (time.usec >= 1000000) { time.sec++; time.usec -= 1000000; }` -/
def carryUsec (time : RelTime) : RelTime :=
  if 1000000 ≤ time.2 then carryUsec (time.1+1,time.2-1000000) else time
termination_by time.2.toNat

/-- A timeout, with the address of its memory. -/
structure EloopTimeout where
  ptr : ℕ
  time : RelTime
  eloopData : ℕ
  userData : ℕ
  handler : ℕ
  deriving DecidableEq

/-- The list of the loop, and what became of the timeouts so far. -/
structure EloopTimers where
  timeout : List EloopTimeout
  nextPtr : ℕ
  log : List (AgendaEvent EloopTimeout (ℤ ×ₗ ℤ))

/-- `(void *) -1` -/
def eloopAllCtx : ℕ := 2^64-1

namespace EloopTimers

def eloopInit : EloopTimers := ⟨[],0,[]⟩

/-- The list stays in the order of the times. -/
def addTimeout (timeout : EloopTimeout) : List EloopTimeout → List EloopTimeout
  | [] => [timeout]
  | tmp :: rest =>
    if isBefore timeout.time tmp.time then timeout :: tmp :: rest
    else tmp :: addTimeout timeout rest

def queued (s : EloopTimers) (timeout : EloopTimeout) : EloopTimers :=
  { timeout := addTimeout timeout s.timeout, nextPtr := s.nextPtr+1
    log := s.log ++ [.added timeout] }

/-- The timeouts that are given leave the list. -/
def removed (s : EloopTimers) (rest gone : List EloopTimeout) : EloopTimers :=
  { s with timeout := rest, log := s.log ++ gone.map .dropped }

variable (s : EloopTimers)

section Calls
variable (handler eloopData userData : ℕ)

/-- `mem` says whether there is memory for the timeout. -/
def registerTimeout (mem : Bool) (now : RelTime) (secs usecs : UInt32) : EloopTimers × ℤ :=
  if mem then
    let sec := (now.1+secs.toNat).bmod (2^64)
    -- too long to ever happen
    if sec < now.1 then (s,0)
    else
      let time := carryUsec (sec,now.2+usecs.toNat)
      (s.queued ⟨s.nextPtr,time,eloopData,userData,handler⟩,0)
  else (s,-1)

/-- The timeouts that `eloop_cancel_timeout` is for. -/
def meant (t : EloopTimeout) : Bool :=
  t.handler = handler && (t.eloopData = eloopData || eloopData = eloopAllCtx) &&
    (t.userData = userData || userData = eloopAllCtx)

def isTimeout (t : EloopTimeout) : Bool :=
  t.handler = handler && t.eloopData = eloopData && t.userData = userData

def cancelTimeout : EloopTimers × ℕ :=
  let gone := s.timeout.filter (meant handler eloopData userData)
  (s.removed (s.timeout.filter fun t => !meant handler eloopData userData t) gone,gone.length)

/-- The third component is the time that was left. -/
def cancelTimeoutOne (now : RelTime) : EloopTimers × ℕ × RelTime :=
  match s.timeout.find? (isTimeout handler eloopData userData) with
  | none => (s,0,(0,0))
  | some t =>
    (s.removed (s.timeout.eraseP (isTimeout handler eloopData userData)) [t],1,
      if isBefore now t.time then relTimeSub t.time now else (0,0))

def isTimeoutRegistered : Bool := s.timeout.any (isTimeout handler eloopData userData)

/-- What `eloop_deplete_timeout` and `eloop_replenish_timeout` share: the timeout gets the time that
was asked for if that is better than the time that is left. The clock is read a second time when it
is registered again. -/
def retime (better : RelTime → RelTime → Bool) (mem : Bool) (now later : RelTime)
    (reqSecs reqUsecs : UInt32) : EloopTimers × ℤ :=
  match s.timeout.find? (isTimeout handler eloopData userData) with
  | none => (s,-1)
  | some t =>
    if better (reqSecs.toNat,reqUsecs.toNat) (relTimeSub t.time now) then
      (((s.cancelTimeout handler eloopData userData).1.registerTimeout handler eloopData userData mem
        later reqSecs reqUsecs).1,1)
    else (s,0)

end Calls

section Loop
variable (now : RelTime)

/-- How long the loop may sleep. -/
def sleepTime : Option RelTime := s.timeout.head?.map fun t =>
  if isBefore now t.time then relTimeSub t.time now else (0,0)

/-- A timeout that has occurred is removed, and then its handler is called. -/
def checkTimeouts : EloopTimers :=
  match s.timeout with
  | [] => s
  | t :: rest =>
    if isBefore now t.time then s
    else { s with timeout := rest, log := s.log ++ [.ran t (toLex now)] }

end Loop

end EloopTimers

end WpaCliWrapper
