import Mathlib.Tactic.Ring
import WpaCliWrapper.Utils.Eloop

/-! The timeouts of the event loop over whole runs: none is lost or called twice, none is called too
early or out of turn, and none waits for ever. -/

namespace WpaCliWrapper
open Agenda

section Clock

/-- A time in microseconds. -/
def RelTime.micros (t : RelTime) : ℤ := t.1*1000000+t.2

/-- A time as the system gives it. -/
structure ClockReads (t : RelTime) : Prop where
  sec : 0 ≤ t.1 ∧ t.1 < 2^62
  usec : 0 ≤ t.2 ∧ t.2 < 1000000

variable {a b t : RelTime}

theorem isBefore_iff : isBefore a b ↔ toLex a < toLex b := by
  rw [Prod.Lex.toLex_lt_toLex]
  simp [isBefore]

theorem not_isBefore_iff : ¬ isBefore a b ↔ toLex b ≤ toLex a := by rw [isBefore_iff,not_lt]

theorem isBefore_micros (ha : 0 ≤ a.2 ∧ a.2 < 1000000) (hb : 0 ≤ b.2 ∧ b.2 < 1000000) :
    isBefore a b ↔ a.micros < b.micros := by
  simp only [isBefore,RelTime.micros,Bool.or_eq_true,Bool.and_eq_true,decide_eq_true_iff]
  omega

theorem carryUsec_micros (t : RelTime) : (carryUsec t).micros = t.micros := by
  fun_induction carryUsec t with
  | case1 t hle ih =>
    rw [ih,RelTime.micros,RelTime.micros]
    ring
  | case2 t hlt => rfl

theorem carryUsec_usec (h : 0 ≤ t.2) : 0 ≤ (carryUsec t).2 ∧ (carryUsec t).2 < 1000000 := by
  fun_induction carryUsec t with
  | case1 t hle ih => exact ih (by simpa using hle)
  | case2 t hlt => exact ⟨h,not_le.mp hlt⟩

end Clock

/-- The order of the list. -/
def EloopTimeout.due (t : EloopTimeout) : ℤ ×ₗ ℤ := toLex t.time

/-- A call that went through: a timeout is due at a time in microseconds, or those that are meant
are cancelled. -/
inductive TimerCall
  | registered (handler eloopData userData : ℕ) (due : ℤ)
  | cancelled (handler eloopData userData : ℕ)

def TimerCall.isRegistered : TimerCall → Bool
  | registered _ _ _ _ => true
  | cancelled _ _ _ => false

/-- The call that a timeout comes from. -/
def EloopTimeout.call (t : EloopTimeout) : TimerCall :=
  .registered t.handler t.eloopData t.userData t.time.micros

namespace EloopTimers
variable {s : EloopTimers} {now later : RelTime}

section Steps

/-- The timeouts as things to do. -/
def agenda (s : EloopTimers) : Agenda EloopTimeout (ℤ ×ₗ ℤ) := ⟨s.timeout,s.log⟩

theorem addTimeout_eq_insert (t : EloopTimeout) (l : List EloopTimeout) :
    addTimeout t l = Agenda.insert EloopTimeout.due t l := by
  induction l with
  | nil => rfl
  | cons u l ih =>
    rw [addTimeout,Agenda.insert,ih]
    exact if_congr isBefore_iff rfl rfl

theorem agenda_queued (s : EloopTimers) (t : EloopTimeout) :
    (s.queued t).agenda = s.agenda.add EloopTimeout.due t := by
  rw [Agenda.add,agenda,agenda,queued,addTimeout_eq_insert]

theorem agenda_checkTimeouts (s : EloopTimers) (now : RelTime) :
    (s.checkTimeouts now).agenda = s.agenda.run EloopTimeout.due (toLex now) := by
  rw [Agenda.run,agenda,agenda,checkTimeouts]
  cases htimeout : s.timeout with
  | nil => simp only [htimeout]
  | cons t rest =>
    have hdue : t.due ≤ toLex now ↔ ¬ isBefore now t.time := not_isBefore_iff.symm
    by_cases hbefore : isBefore now t.time
    · simp only [if_pos hbefore,if_neg (mt hdue.mp (not_not.mpr hbefore)),htimeout]
    · simp only [if_neg hbefore,if_pos (hdue.mpr hbefore)]

theorem cancelTimeout_drops (s : EloopTimers) (handler eloopData userData : ℕ) :
    Drops (s.timeout.filter (meant handler eloopData userData)) s.agenda
      (s.cancelTimeout handler eloopData userData).1.agenda where
  sublist := List.filter_sublist
  perm := (List.filter_append_perm _ _).symm.trans List.perm_append_comm
  log := rfl

theorem cancelTimeoutOne_cases (s : EloopTimers) (handler eloopData userData : ℕ) (now : RelTime) :
    (s.cancelTimeoutOne handler eloopData userData now).1 = s ∨ ∃ t,
      isTimeout handler eloopData userData t ∧
        Drops [t] s.agenda (s.cancelTimeoutOne handler eloopData userData now).1.agenda := by
  rw [cancelTimeoutOne]
  cases hfind : s.timeout.find? (isTimeout handler eloopData userData) with
  | none => exact .inl rfl
  | some t =>
    obtain ⟨ht,d,l,hsplit,hd⟩ := List.find?_eq_some_iff_append.mp hfind
    refine .inr ⟨t,ht,List.eraseP_sublist,?_,rfl⟩
    have hnone : ∀ u ∈ d, ¬ isTimeout handler eloopData userData u := fun u hu => by
      simpa using hd u hu
    change s.timeout.Perm (s.timeout.eraseP _ ++ [t])
    rw [hsplit,List.eraseP_append_right _ hnone,List.eraseP_cons_of_pos ht,List.append_assoc]
    exact (List.perm_append_singleton t l).symm.append_left d

end Steps

/-- What holds of the list and of the log after any calls. -/
structure Sound (s : EloopTimers) : Prop where
  valid : Valid EloopTimeout.due EloopTimeout.ptr s.agenda
  fresh : ∀ t ∈ added s.log, t.ptr < s.nextPtr
  usec : ∀ t ∈ added s.log, 0 ≤ t.time.2 ∧ t.time.2 < 1000000

/-- What registering does to the list. -/
theorem registerTimeout_cases (s : EloopTimers) (handler eloopData userData : ℕ) (mem : Bool)
    (hnow : ClockReads now) (secs usecs : UInt32) :
    mem = false ∧ s.registerTimeout handler eloopData userData mem now secs usecs = (s,-1) ∨
      mem = true ∧ ∃ t : EloopTimeout, t.ptr = s.nextPtr ∧ t.handler = handler ∧
        t.eloopData = eloopData ∧ t.userData = userData ∧
        t.time.micros = now.micros+secs.toNat*1000000+usecs.toNat ∧
        (0 ≤ t.time.2 ∧ t.time.2 < 1000000) ∧
        s.registerTimeout handler eloopData userData mem now secs usecs = (s.queued t,0) := by
  cases mem with
  | false => exact .inl ⟨rfl,rfl⟩
  | true =>
    have hsec : (now.1+secs.toNat).bmod (2^64) = now.1+secs.toNat := by
      have hlt := secs.toNat_lt
      have hclock := hnow.sec
      rw [Int.bmod_eq_of_le]
      all_goals omega
    refine .inr ⟨rfl,⟨s.nextPtr,carryUsec (now.1+secs.toNat,now.2+usecs.toNat),eloopData,userData,
      handler⟩,rfl,rfl,rfl,rfl,?_,carryUsec_usec ?_,?_⟩
    · rw [carryUsec_micros,RelTime.micros,RelTime.micros]
      ring
    · exact add_nonneg hnow.usec.1 (Int.natCast_nonneg _)
    · rw [registerTimeout,if_pos rfl,hsec]
      exact if_neg (by omega)

theorem sound_init : eloopInit.Sound :=
  ⟨.empty,fun _ h => absurd h List.not_mem_nil,fun _ h => absurd h List.not_mem_nil⟩

theorem Sound.queued (h : s.Sound) {t : EloopTimeout} (hptr : t.ptr = s.nextPtr)
    (husec : 0 ≤ t.time.2 ∧ t.time.2 < 1000000) : (s.queued t).Sound := by
  have hadded : added (s.queued t).log = added s.log ++ [t] := added_append s.log [.added t]
  refine ⟨?_,fun u hu => ?_,fun u hu => ?_⟩
  · rw [agenda_queued]
    exact h.valid.add fun u hu => (h.fresh u hu).trans_eq hptr.symm
  · rw [hadded] at hu
    rcases List.mem_append.mp hu with hu | hu
    · exact (h.fresh u hu).trans (Nat.lt_succ_self _)
    · rw [List.mem_singleton.mp hu,hptr]
      exact Nat.lt_succ_self _
  · rw [hadded] at hu
    rcases List.mem_append.mp hu with hu | hu
    · exact h.usec u hu
    · rw [List.mem_singleton.mp hu]
      exact husec

theorem Sound.drops (h : s.Sound) {s' : EloopTimers} {g : List EloopTimeout}
    (hdrops : Drops g s.agenda s'.agenda) (hptr : s'.nextPtr = s.nextPtr) : s'.Sound := by
  have hadded : added s'.log = added s.log := by
    have hlog : s'.log = s.log ++ g.map .dropped := hdrops.log
    rw [hlog,added_append,added_dropped,List.append_nil]
  refine ⟨h.valid.drops hdrops,fun t ht => ?_,fun t ht => ?_⟩
  · rw [hptr]
    exact h.fresh t (hadded ▸ ht)
  · exact h.usec t (hadded ▸ ht)

theorem Sound.checkTimeouts (h : s.Sound) (now : RelTime) : (s.checkTimeouts now).Sound := by
  have hsame : added (s.checkTimeouts now).log = added s.log ∧
      (s.checkTimeouts now).nextPtr = s.nextPtr := by
    rw [EloopTimers.checkTimeouts]
    split
    · exact ⟨rfl,rfl⟩
    · split
      · exact ⟨rfl,rfl⟩
      · exact ⟨(added_append _ _).trans (List.append_nil _),rfl⟩
  refine ⟨?_,fun t ht => ?_,fun t ht => ?_⟩
  · rw [agenda_checkTimeouts]
    exact h.valid.run _
  · rw [hsame.2]
    exact h.fresh t (hsame.1 ▸ ht)
  · exact h.usec t (hsame.1 ▸ ht)

theorem Sound.cancelTimeout (h : s.Sound) (handler eloopData userData : ℕ) :
    (s.cancelTimeout handler eloopData userData).1.Sound :=
  h.drops (cancelTimeout_drops s handler eloopData userData) rfl

theorem Sound.registerTimeout (h : s.Sound) (handler eloopData userData : ℕ) (mem : Bool)
    (hnow : ClockReads now) (secs usecs : UInt32) :
    (s.registerTimeout handler eloopData userData mem now secs usecs).1.Sound := by
  rcases registerTimeout_cases s handler eloopData userData mem hnow secs usecs with
    ⟨-,heq⟩ | ⟨-,t,hptr,-,-,-,-,husec,heq⟩
  · rw [heq]
    exact h
  · rw [heq]
    exact h.queued hptr husec

/-- A timeout that gets a better time is cancelled and registered again. -/
theorem retime_cases (s : EloopTimers) (handler eloopData userData : ℕ)
    (better : RelTime → RelTime → Bool) (mem : Bool) (now later : RelTime)
    (reqSecs reqUsecs : UInt32) :
    (s.retime handler eloopData userData better mem now later reqSecs reqUsecs).2 ≠ 1 ∧
        (s.retime handler eloopData userData better mem now later reqSecs reqUsecs).1 = s ∨
      (s.retime handler eloopData userData better mem now later reqSecs reqUsecs).2 = 1 ∧
        (s.retime handler eloopData userData better mem now later reqSecs reqUsecs).1 =
          ((s.cancelTimeout handler eloopData userData).1.registerTimeout handler eloopData userData
            mem later reqSecs reqUsecs).1 := by
  rw [retime]
  split
  · exact .inl ⟨by simp,rfl⟩
  split
  · exact .inr ⟨rfl,rfl⟩
  · exact .inl ⟨by simp,rfl⟩

/-- Without memory nothing is registered. -/
def registering (handler eloopData userData : ℕ) (mem : Bool) (now : RelTime)
    (secs usecs : UInt32) : List TimerCall :=
  if mem then [.registered handler eloopData userData (now.micros+secs.toNat*1000000+usecs.toNat)]
  else []

/-- What the callers and the loop do with the timeouts from some state on, while the clock goes on,
how often the loop looks at them, and which calls there were. -/
inductive Run (now₀ : RelTime) (s₀ : EloopTimers) :
    ℕ → List TimerCall → RelTime → EloopTimers → Prop
  | start : Run now₀ s₀ 0 [] now₀ s₀
  | tick {n calls now now' s} (h : Run now₀ s₀ n calls now s) (hclock : ClockReads now')
      (hlater : ¬ isBefore now' now) : Run now₀ s₀ n calls now' s
  | register {n calls now s} (h : Run now₀ s₀ n calls now s) (handler eloopData userData : ℕ)
      (mem : Bool) (secs usecs : UInt32) :
      Run now₀ s₀ n (calls ++ registering handler eloopData userData mem now secs usecs) now
        (s.registerTimeout handler eloopData userData mem now secs usecs).1
  | cancel {n calls now s} (h : Run now₀ s₀ n calls now s) (handler eloopData userData : ℕ) :
      Run now₀ s₀ n (calls ++ [.cancelled handler eloopData userData]) now
        (s.cancelTimeout handler eloopData userData).1
  | cancelOne {n calls now s} (h : Run now₀ s₀ n calls now s) (handler eloopData userData : ℕ) :
      Run now₀ s₀ n (calls ++ [.cancelled handler eloopData userData]) now
        (s.cancelTimeoutOne handler eloopData userData now).1
  | retime {n calls now later s} (h : Run now₀ s₀ n calls now s) (hclock : ClockReads later)
      (hlater : ¬ isBefore later now) (handler eloopData userData : ℕ)
      (better : RelTime → RelTime → Bool) (mem : Bool) (reqSecs reqUsecs : UInt32) :
      Run now₀ s₀ n (calls ++
          if (s.retime handler eloopData userData better mem now later reqSecs reqUsecs).2 = 1 then
            .cancelled handler eloopData userData ::
              registering handler eloopData userData mem later reqSecs reqUsecs
          else []) later
        (s.retime handler eloopData userData better mem now later reqSecs reqUsecs).1
  | round {n calls now s} (h : Run now₀ s₀ n calls now s) :
      Run now₀ s₀ (n+1) calls now (s.checkTimeouts now)

section Runs
variable {now₀ : RelTime} {s₀ : EloopTimers} {n : ℕ} {calls : List TimerCall}

theorem Run.clock (h : Run now₀ s₀ n calls now s) (hclock : ClockReads now₀) : ClockReads now := by
  induction h with
  | start => exact hclock
  | tick _ hclock' => exact hclock'
  | register _ _ _ _ _ _ _ ih => exact ih
  | cancel _ _ _ _ ih => exact ih
  | cancelOne _ _ _ _ ih => exact ih
  | retime _ hclock' => exact hclock'
  | round _ ih => exact ih

theorem Run.clock_le (h : Run now₀ s₀ n calls now s) : toLex now₀ ≤ toLex now := by
  induction h with
  | start => exact le_refl _
  | tick _ _ hlater ih => exact ih.trans (not_isBefore_iff.mp hlater)
  | register _ _ _ _ _ _ _ ih => exact ih
  | cancel _ _ _ _ ih => exact ih
  | cancelOne _ _ _ _ ih => exact ih
  | retime _ _ hlater _ _ _ _ _ _ _ ih => exact ih.trans (not_isBefore_iff.mp hlater)
  | round _ ih => exact ih

theorem Run.sound (h : Run now₀ s₀ n calls now s) (hclock : ClockReads now₀) (hs₀ : s₀.Sound) :
    s.Sound := by
  induction h with
  | start => exact hs₀
  | tick _ _ _ ih => exact ih
  | register h handler eloopData userData mem secs usecs ih =>
    exact ih.registerTimeout handler eloopData userData mem (h.clock hclock) secs usecs
  | cancel _ handler eloopData userData ih => exact ih.cancelTimeout handler eloopData userData
  | @cancelOne n calls now s _ handler eloopData userData ih =>
    rcases cancelTimeoutOne_cases s handler eloopData userData now with heq | ⟨t,-,hdrops⟩
    · rw [heq]
      exact ih
    · refine ih.drops hdrops ?_
      rw [cancelTimeoutOne]
      split <;> rfl
  | @retime n calls now later s _ hclock' _ handler eloopData userData better mem reqSecs reqUsecs ih =>
    rcases retime_cases s handler eloopData userData better mem now later reqSecs reqUsecs with
      ⟨-,heq⟩ | ⟨-,heq⟩
    · rw [heq]
      exact ih
    · rw [heq]
      exact (ih.cancelTimeout handler eloopData userData).registerTimeout handler eloopData userData
        mem hclock' reqSecs reqUsecs
  | round _ ih => exact ih.checkTimeouts _

/-- What is registered when another timeout is due goes behind it. -/
theorem Sound.waits_registerTimeout (hs : s.Sound) {t : EloopTimeout} {bound : ℕ}
    (hwaits : Waits EloopTimeout.due EloopTimeout.ptr t n bound s.agenda) (hnow : ClockReads now)
    (hdue : t.due ≤ toLex now) (handler eloopData userData : ℕ) (mem : Bool) (secs usecs : UInt32) :
    Waits EloopTimeout.due EloopTimeout.ptr t n bound
      (s.registerTimeout handler eloopData userData mem now secs usecs).1.agenda := by
  rcases registerTimeout_cases s handler eloopData userData mem hnow secs usecs with
    ⟨-,heq⟩ | ⟨-,u,hptr,-,-,-,htime,husec,heq⟩
  · rw [heq]
    exact hwaits
  · rw [heq,agenda_queued]
    refine hwaits.add (hdue.trans ?_) hs.valid fun v hv => (hs.fresh v hv).trans_eq hptr.symm
    refine not_isBefore_iff.mp ?_
    rw [isBefore_micros husec hnow.usec]
    omega

/-- A timeout that is due waits for those in front of it, and no call can put another one there. -/
theorem Run.waits (h : Run now₀ s₀ n calls now s) (hclock : ClockReads now₀) (hs₀ : s₀.Sound)
    {t : EloopTimeout} (ht : t ∈ s₀.timeout) (hdue : t.due ≤ toLex now₀) :
    Waits EloopTimeout.due EloopTimeout.ptr t n (ahead EloopTimeout.due EloopTimeout.ptr t s₀.agenda)
      s.agenda := by
  induction h with
  | start => exact .inr ⟨ht,le_refl _⟩
  | tick _ _ _ ih => exact ih
  | register h handler eloopData userData mem secs usecs ih =>
    exact (h.sound hclock hs₀).waits_registerTimeout ih (h.clock hclock) (hdue.trans h.clock_le)
      handler eloopData userData mem secs usecs
  | cancel _ handler eloopData userData ih =>
    exact ih.drops (cancelTimeout_drops _ handler eloopData userData)
  | @cancelOne n calls now s _ handler eloopData userData ih =>
    rcases cancelTimeoutOne_cases s handler eloopData userData now with heq | ⟨u,-,hdrops⟩
    · rw [heq]
      exact ih
    · exact ih.drops hdrops
  | @retime n calls now later s h hclock' hlater handler eloopData userData better mem reqSecs
      reqUsecs ih =>
    rcases retime_cases s handler eloopData userData better mem now later reqSecs reqUsecs with
      ⟨-,heq⟩ | ⟨-,heq⟩
    · rw [heq]
      exact ih
    · rw [heq]
      exact ((h.sound hclock hs₀).cancelTimeout handler eloopData userData).waits_registerTimeout
        (ih.drops (cancelTimeout_drops s handler eloopData userData)) hclock'
        (hdue.trans (h.clock_le.trans (not_isBefore_iff.mp hlater))) handler eloopData userData mem
        reqSecs reqUsecs
  | round h ih =>
    rw [agenda_checkTimeouts]
    exact ih.run (h.sound hclock hs₀).valid (hdue.trans h.clock_le)

theorem meant_of_isTimeout {handler eloopData userData : ℕ} {t : EloopTimeout}
    (h : isTimeout handler eloopData userData t) : meant handler eloopData userData t := by
  simp only [isTimeout,Bool.and_eq_true,decide_eq_true_iff] at h
  simp [meant,h]

/-- The log has the timeouts that were registered, and those that were cancelled were meant. -/
structure Told (calls : List TimerCall) (log : List (AgendaEvent EloopTimeout (ℤ ×ₗ ℤ))) : Prop where
  registered : (added log).map EloopTimeout.call = calls.filter TimerCall.isRegistered
  cancelled : ∀ t, .dropped t ∈ log → ∃ handler eloopData userData,
    .cancelled handler eloopData userData ∈ calls ∧ meant handler eloopData userData t

theorem Told.registerTimeout (h : Told calls s.log) (handler eloopData userData : ℕ) (mem : Bool)
    (hnow : ClockReads now) (secs usecs : UInt32) :
    Told (calls ++ registering handler eloopData userData mem now secs usecs)
      (s.registerTimeout handler eloopData userData mem now secs usecs).1.log := by
  rcases registerTimeout_cases s handler eloopData userData mem hnow secs usecs with
    ⟨hmem,heq⟩ | ⟨hmem,t,-,hh,he,hu,htime,-,heq⟩
  · rw [heq,registering,hmem,if_neg Bool.false_ne_true,List.append_nil]
    exact h
  · rw [heq,registering,hmem,if_pos rfl]
    refine ⟨?_,fun u hdropped => ?_⟩
    · change (added (s.log ++ [.added t])).map EloopTimeout.call = _
      rw [added_append,List.map_append,h.registered,List.filter_append,← htime,← hh,← he,← hu]
      rfl
    · rcases List.mem_append.mp hdropped with hdropped | hdropped
      · obtain ⟨a,b,c,hcall,hmeant⟩ := h.cancelled u hdropped
        exact ⟨a,b,c,List.mem_append_left _ hcall,hmeant⟩
      · cases List.mem_singleton.mp hdropped

theorem Told.drops (h : Told calls s.log) {s' : EloopTimers} {g : List EloopTimeout}
    (hdrops : Drops g s.agenda s'.agenda) {handler eloopData userData : ℕ}
    (hg : ∀ t ∈ g, meant handler eloopData userData t) :
    Told (calls ++ [.cancelled handler eloopData userData]) s'.log := by
  have hlog : s'.log = s.log ++ g.map .dropped := hdrops.log
  rw [hlog]
  refine ⟨?_,fun t hdropped => ?_⟩
  · rw [added_append,added_dropped,List.append_nil,h.registered,List.filter_append]
    exact (List.append_nil _).symm
  · rcases List.mem_append.mp hdropped with hdropped | hdropped
    · obtain ⟨a,b,c,hcall,hmeant⟩ := h.cancelled t hdropped
      exact ⟨a,b,c,List.mem_append_left _ hcall,hmeant⟩
    · obtain ⟨u,hu,heq⟩ := List.mem_map.mp hdropped
      cases heq
      exact ⟨_,_,_,List.mem_append_right _ List.mem_cons_self,hg t hu⟩

theorem Told.cancelTimeout (h : Told calls s.log) (handler eloopData userData : ℕ) :
    Told (calls ++ [.cancelled handler eloopData userData])
      (s.cancelTimeout handler eloopData userData).1.log :=
  h.drops (cancelTimeout_drops s handler eloopData userData) fun _ ht => (List.mem_filter.mp ht).2

theorem Told.checkTimeouts (h : Told calls s.log) (now : RelTime) :
    Told calls (s.checkTimeouts now).log := by
  rw [EloopTimers.checkTimeouts]
  split
  · exact h
  split
  · exact h
  · refine ⟨?_,fun t hdropped => ?_⟩
    · rw [added_append]
      exact (congrArg _ (List.append_nil _)).trans h.registered
    · rcases List.mem_append.mp hdropped with hdropped | hdropped
      · exact h.cancelled t hdropped
      · cases List.mem_singleton.mp hdropped

theorem Run.told (h : Run now₀ eloopInit n calls now s) (hclock : ClockReads now₀) :
    Told calls s.log := by
  induction h with
  | start => exact ⟨rfl,fun t ht => absurd ht List.not_mem_nil⟩
  | tick _ _ _ ih => exact ih
  | register h handler eloopData userData mem secs usecs ih =>
    exact ih.registerTimeout handler eloopData userData mem (h.clock hclock) secs usecs
  | cancel _ handler eloopData userData ih => exact ih.cancelTimeout handler eloopData userData
  | @cancelOne n calls now s _ handler eloopData userData ih =>
    rcases cancelTimeoutOne_cases s handler eloopData userData now with heq | ⟨t,ht,hdrops⟩
    · rw [heq]
      exact ih.drops (g := []) ⟨.refl _,by rw [List.append_nil],by simp⟩
        fun _ hu => absurd hu List.not_mem_nil
    · refine ih.drops hdrops fun u hu => ?_
      rw [List.mem_singleton.mp hu]
      exact meant_of_isTimeout ht
  | @retime n calls now later s _ hclock' _ handler eloopData userData better mem reqSecs reqUsecs ih =>
    rcases retime_cases s handler eloopData userData better mem now later reqSecs reqUsecs with
      ⟨hret,heq⟩ | ⟨hret,heq⟩
    · rw [heq,if_neg hret,List.append_nil]
      exact ih
    · rw [heq,if_pos hret,List.append_cons]
      exact (ih.cancelTimeout handler eloopData userData).registerTimeout handler eloopData userData
        mem hclock' reqSecs reqUsecs
  | round _ ih => exact ih.checkTimeouts _

section Samples

/-- A delay of whole microseconds that need not be carried. -/
theorem registerTimeout_short (s : EloopTimers) (handler eloopData userData : ℕ)
    (hnow : ClockReads now) {secs usecs : UInt32} (h : now.2+usecs.toNat < 1000000) :
    (s.registerTimeout handler eloopData userData true now secs usecs).1 = s.queued
      ⟨s.nextPtr,(now.1+secs.toNat,now.2+usecs.toNat),eloopData,userData,handler⟩ := by
  have hsec : (now.1+secs.toNat).bmod (2^64) = now.1+secs.toNat := by
    have hlt := secs.toNat_lt
    have hclock := hnow.sec
    rw [Int.bmod_eq_of_le]
    all_goals omega
  have hcarry : carryUsec (now.1+secs.toNat,now.2+usecs.toNat) =
      (now.1+secs.toNat,now.2+usecs.toNat) := by rw [carryUsec,if_neg (not_le.mpr h)]
  simp only [registerTimeout,if_true,hsec,hcarry]
  exact congrArg Prod.fst (if_neg (by omega))

def lateTimeout : EloopTimeout := ⟨0,(2,0),0,0,2⟩
def soonTimeout : EloopTimeout := ⟨1,(1,500),0,0,1⟩

/-- Two timeouts, the one that is due later registered first. -/
def sampleTimers : EloopTimers := (eloopInit.queued lateTimeout).queued soonTimeout

def sampleCalls : List TimerCall := [.registered 2 0 0 2000000,.registered 1 0 0 1000500]

theorem clock_zero : ClockReads (0,0) := ⟨by decide,by decide⟩
theorem clock_three : ClockReads (3,0) := ⟨by decide,by decide⟩

theorem sample_run : Run (0,0) eloopInit 0 sampleCalls (0,0) sampleTimers := by
  have hrun : Run (0,0) eloopInit 0 _ (0,0) _ := Run.start.register 2 0 0 true 2 0
  rw [registerTimeout_short eloopInit 2 0 0 clock_zero (by decide)] at hrun
  have hrun := hrun.register 1 0 0 true 1 500
  rw [registerTimeout_short _ 1 0 0 clock_zero (by decide)] at hrun
  exact hrun

theorem sample_due : Run (0,0) eloopInit 0 sampleCalls (3,0) sampleTimers :=
  sample_run.tick clock_three (by decide)

end Samples

theorem Sound.sooner {t u : EloopTimeout} : (isBefore t.time u.time ∨ t.time = u.time ∧ t.ptr < u.ptr) ↔
    rank EloopTimeout.due EloopTimeout.ptr t < rank EloopTimeout.due EloopTimeout.ptr u := by
  rw [rank_lt_iff,isBefore_iff]
  exact Iff.rfl

/-- The timeouts are those that were registered, each due as long after its call as was asked for.
Each of them still waits, or it was cancelled by a call that meant it, or called, and that once. It
was not called before its time, nor before one that comes sooner or, at the same time, was there
first. -/
theorem timeouts_in_order (hclock : ClockReads now₀) (h : Run now₀ eloopInit n calls now s) :
    (added s.log).map EloopTimeout.call = calls.filter TimerCall.isRegistered ∧
    (∀ t, .dropped t ∈ s.log → ∃ handler eloopData userData,
      .cancelled handler eloopData userData ∈ calls ∧ meant handler eloopData userData t) ∧
    (added s.log).Perm (s.timeout ++ gone s.log) ∧ (added s.log).Pairwise (·.ptr < ·.ptr) ∧
    s.timeout.Pairwise (fun t u => isBefore t.time u.time ∨ t.time = u.time ∧ t.ptr < u.ptr) ∧
    (∀ t time, .ran t (toLex time) ∈ s.log → ¬ isBefore time t.time) ∧
    ∀ log t time, log ++ [.ran t time] <+: s.log → ∀ u ∈ added log,
      isBefore u.time t.time ∨ u.time = t.time ∧ u.ptr < t.ptr → u ∈ gone log := by
  have hvalid := (h.sound hclock sound_init).valid
  have htold := h.told hclock
  refine ⟨htold.registered,htold.cancelled,hvalid.kept,hvalid.serials,
    hvalid.sorted.imp Sound.sooner.mpr,fun t time hran => ?_,fun log t time hpre u hu hsooner => ?_⟩
  · exact not_isBefore_iff.mpr (hvalid.timely t _ hran)
  · exact hvalid.ordered log t time hpre u hu (Sound.sooner.mp hsooner)

/-- Both timeouts are called when they are due, the sooner one first. -/
theorem timeouts_in_order_sample :
    (added ((sampleTimers.checkTimeouts (3,0)).checkTimeouts (3,0)).log).map EloopTimeout.call =
      sampleCalls ∧
    gone ((sampleTimers.checkTimeouts (3,0)).checkTimeouts (3,0)).log = [soonTimeout,lateTimeout] ∧
    ∀ u ∈ [lateTimeout,soonTimeout], isBefore u.time lateTimeout.time → u ∈ [soonTimeout] := by
  obtain ⟨hcalls,-,-,-,-,-,hordered⟩ := timeouts_in_order clock_zero sample_due.round.round
  refine ⟨hcalls,rfl,fun u hu hbefore => ?_⟩
  exact hordered (sampleTimers.checkTimeouts (3,0)).log lateTimeout (toLex (3,0)) List.prefix_rfl u hu
    (.inl hbefore)

theorem Sound.first_le (h : s.Sound) {t u : EloopTimeout} {rest : List EloopTimeout}
    (htimeout : s.timeout = u :: rest) (ht : t ∈ s.timeout) : u.due ≤ t.due := by
  have hdues := h.valid.dues
  change s.timeout.Pairwise _ at hdues
  rw [htimeout,List.pairwise_cons] at hdues
  rw [htimeout] at ht
  rcases List.mem_cons.mp ht with rfl | ht
  · exact le_refl _
  · exact hdues.1 t ht

/-- Whatever the handlers register and cancel, a timeout that is due is called or cancelled when the
loop has looked at the timeouts once more often than there were timeouts in front of it, and until
then the loop does not sleep. -/
theorem timeout_not_starved (hclock : ClockReads now₀) {m : ℕ}
    (h₀ : Run now₀ eloopInit m calls now s) {t : EloopTimeout} {d l : List EloopTimeout}
    (hsplit : s.timeout = d ++ t :: l) (hdue : ¬ isBefore now t.time) {now' : RelTime} {calls' : List TimerCall} {s' : EloopTimers}
    (h : Run now s n calls' now' s') :
    (d.length < n → t ∈ gone s'.log) ∧ (t ∈ s'.timeout → s'.sleepTime now' = some (0,0)) := by
  have hs := h₀.sound hclock sound_init
  have hnow := h₀.clock hclock
  have ht : t ∈ s.timeout := hsplit ▸ List.mem_append_right d List.mem_cons_self
  have hle : t.due ≤ toLex now := not_isBefore_iff.mp hdue
  constructor
  · intro hn
    rcases h.waits hnow hs ht hle with hgone | ⟨-,hahead⟩
    · exact hgone
    · have hfew := hahead.trans (ahead_le hs.valid hsplit)
      omega
  · intro ht'
    cases htimeout : s'.timeout with
    | nil => exact absurd (htimeout ▸ ht') List.not_mem_nil
    | cons u rest =>
      have hfirst := (h.sound hnow hs).first_le htimeout ht'
      have hnot := not_isBefore_iff.mpr (hfirst.trans (hle.trans h.clock_le))
      rw [sleepTime,htimeout]
      exact congrArg some (if_neg hnot)

/-- The handler of the first timeout registers another one, which is due at once, and the second
timeout is called next. -/
theorem timeout_not_starved_sample : ∃ s₁ s₂ : EloopTimers,
    s₁ = ((sampleTimers.checkTimeouts (3,0)).registerTimeout 3 0 0 true (3,0) 0 0).1 ∧
      s₁.timeout = [lateTimeout,⟨2,(3,0),0,0,3⟩] ∧ s₁.sleepTime (3,0) = some (0,0) ∧
      s₂ = s₁.checkTimeouts (3,0) ∧ lateTimeout ∈ gone s₂.log := by
  have hrun : Run (3,0) sampleTimers 1 _ (3,0) _ := Run.start.round.register 3 0 0 true 0 0
  have hregistered : ((sampleTimers.checkTimeouts (3,0)).registerTimeout 3 0 0 true (3,0) 0 0).1 = _ :=
    registerTimeout_short _ 3 0 0 clock_three (by decide)
  have hlist := congrArg EloopTimers.timeout hregistered
  have hstarved : ∀ {k calls s}, Run (3,0) sampleTimers k calls (3,0) s →
      ([soonTimeout].length < k → lateTimeout ∈ gone s.log) ∧
        (lateTimeout ∈ s.timeout → s.sleepTime (3,0) = some (0,0)) :=
    fun h => timeout_not_starved clock_zero sample_due (l := []) rfl (by decide) h
  refine ⟨_,_,rfl,hlist,(hstarved hrun).2 ?_,rfl,(hstarved hrun.round).1 (by decide)⟩
  rw [hlist]
  exact List.mem_cons_self

end Runs

section Retiming
variable {now₀ : RelTime} {n : ℕ} {calls : List TimerCall} (handler eloopData userData : ℕ)

theorem retime_registered_iff (s : EloopTimers) (better : RelTime → RelTime → Bool) (mem : Bool)
    (reqSecs reqUsecs : UInt32) :
    (s.retime handler eloopData userData better mem now later reqSecs reqUsecs).2 = -1 ↔
      ¬ s.isTimeoutRegistered handler eloopData userData := by
  rw [isTimeoutRegistered,List.any_eq_true,← List.find?_isSome,retime]
  cases s.timeout.find? (isTimeout handler eloopData userData) with
  | none => simp
  | some t =>
    simp only
    split <;> simp

end Retiming

end EloopTimers

end WpaCliWrapper
