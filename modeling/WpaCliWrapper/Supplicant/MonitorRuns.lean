import WpaCliWrapper.Supplicant.MonitorSock

/-! What the monitors of the control interface get in every run: the messages in their order, each at
most once, and none that waits is forgotten. -/

namespace WpaCliWrapper
open CText

namespace CtrlIfaces
open CtrlSock
variable {ifname : ℕ → Bytes} {timed owned : Prop} {s : CtrlIfaces}

/-- What holds of the sockets after any steps. If every timeout could be registered (`timed`), a
message that waits has one; and if every message came from an interface with a socket of its own
(`owned`), a timeout is for an interface that is there. -/
structure Sound (ifname : ℕ → Bytes) (timed owned : Prop) (s : CtrlIfaces) : Prop where
  globals : ∀ p, s.global = some p → p.Sound (globalName ifname)
  ifaces : ∀ w p, s.iface w = some p → p.Sound fun _ => none
  globalTimers : timed → ∀ p, s.global = some p → ∀ msg ∈ p.msgQueue, s.timers msg.wpaS = true
  ifaceTimers : timed → ∀ w p, s.iface w = some p → p.msgQueue ≠ [] → s.timers w = true
  alive : owned → ∀ w, s.timers w = true → (s.iface w).isSome

theorem timersFor_of (s : CtrlIfaces) (wpaS : ℕ) (waits : Bool) {w : ℕ} (h : s.timers w = true) :
    s.timersFor wpaS waits true w = true := by
  rw [timersFor]
  by_cases hw : w = wpaS
  · rw [hw,Function.update_self,← hw,h,ite_self]
  · rw [Function.update_of_ne hw,h]

theorem timersFor_self (s : CtrlIfaces) (wpaS : ℕ) : s.timersFor wpaS true true wpaS = true := by
  rw [timersFor,Function.update_self,if_pos rfl]

theorem timersFor_cases {wpaS w : ℕ} {waits registered : Bool}
    (h : s.timersFor wpaS waits registered w = true) : s.timers w = true ∨ w = wpaS := by
  rw [timersFor] at h
  by_cases hw : w = wpaS
  · exact .inr hw
  · rw [Function.update_of_ne hw] at h
    exact .inl h

theorem Sound.postGlobal (h : s.Sound ifname timed owned) {genv : SockEnv} {msg : CtrlMsg}
    (htimer : timed → genv.timer = true) (hiface : owned → (s.iface msg.wpaS).isSome) :
    ∃ s', s.postGlobal ifname genv msg = .ok s' ∧ s'.Sound ifname timed owned ∧
      s'.iface = s.iface := by
  rw [CtrlIfaces.postGlobal]
  cases hglobal : s.global with
  | none => exact ⟨s,rfl,h,rfl⟩
  | some p =>
    simp only
    split
    on_goal 2 => exact ⟨s,rfl,h,rfl⟩
    obtain ⟨p',waits,hrun,hp',hqueue⟩ := (h.globals p hglobal).post genv msg
    rw [hrun]
    refine ⟨_,rfl,⟨?_,h.ifaces,fun ht => ?_,fun ht w q hq hne => ?_,fun ho w hw => ?_⟩,rfl⟩
    · rintro q ⟨rfl⟩
      exact hp'
    · rintro q ⟨rfl⟩ m hm
      change s.timersFor msg.wpaS waits genv.timer m.wpaS = true
      rw [htimer ht]
      rcases hqueue m hm with hm | ⟨rfl,rfl⟩
      · exact timersFor_of s _ _ (h.globalTimers ht p hglobal m hm)
      · exact timersFor_self s _
    · change s.timersFor msg.wpaS waits genv.timer w = true
      rw [htimer ht]
      exact timersFor_of s _ _ (h.ifaceTimers ht w q hq hne)
    · rcases timersFor_cases hw with hw | rfl
      · exact h.alive ho w hw
      · exact hiface ho

theorem Sound.postIface (h : s.Sound ifname timed owned) {env : SockEnv}
    (htimer : timed → env.timer = true) (msg : CtrlMsg) :
    ∃ s', s.postIface env msg = .ok s' ∧ s'.Sound ifname timed owned := by
  rw [CtrlIfaces.postIface]
  cases hiface : s.iface msg.wpaS with
  | none => exact ⟨s,rfl,h⟩
  | some p =>
    simp only
    split
    on_goal 2 => exact ⟨s,rfl,h⟩
    obtain ⟨p',waits,hrun,hp',hqueue⟩ := (h.ifaces _ p hiface).post env msg
    rw [hrun]
    have hat : ∀ {w q}, Function.update s.iface msg.wpaS (some p') w = some q →
        w = msg.wpaS ∧ q = p' ∨ s.iface w = some q := fun {w q} hq => by
      by_cases hw : w = msg.wpaS
      · rw [hw,Function.update_self] at hq
        exact .inl ⟨hw,(Option.some.inj hq).symm⟩
      · rw [Function.update_of_ne hw] at hq
        exact .inr hq
    refine ⟨_,rfl,⟨h.globals,fun w q hq => ?_,fun ht q hq m hm => ?_,fun ht w q hq hne => ?_,
      fun ho w hw => ?_⟩⟩
    · rcases hat hq with ⟨-,rfl⟩ | hq
      · exact hp'
      · exact h.ifaces w q hq
    · change s.timersFor msg.wpaS waits env.timer m.wpaS = true
      rw [htimer ht]
      exact timersFor_of s _ _ (h.globalTimers ht q hq m hm)
    · change s.timersFor msg.wpaS waits env.timer w = true
      rw [htimer ht]
      rcases hat hq with ⟨rfl,rfl⟩ | hq
      · obtain ⟨m,hm⟩ := List.exists_mem_of_ne_nil _ hne
        rcases hqueue m hm with hm | ⟨-,rfl⟩
        · exact timersFor_of s _ _ (h.ifaceTimers ht _ p hiface (List.ne_nil_of_mem hm))
        · exact timersFor_self s _
      · exact timersFor_of s _ _ (h.ifaceTimers ht w q hq hne)
    · change (Function.update s.iface msg.wpaS (some p') w).isSome
      by_cases hw' : w = msg.wpaS
      · rw [hw',Function.update_self]
        rfl
      · rw [Function.update_of_ne hw']
        exact h.alive ho w ((timersFor_cases hw).resolve_right hw')

theorem Sound.msgCb (h : s.Sound ifname timed owned) {genv env : SockEnv} {msg : CtrlMsg}
    (htimer : timed → genv.timer = true ∧ env.timer = true)
    (hiface : owned → (s.iface msg.wpaS).isSome) :
    ∃ s', s.msgCb ifname genv env msg = .ok s' ∧ s'.Sound ifname timed owned := by
  obtain ⟨s₁,hrun,hs₁,-⟩ := h.postGlobal (fun ht => (htimer ht).1) hiface
  rw [CtrlIfaces.msgCb,hrun]
  exact hs₁.postIface (fun ht => (htimer ht).2) msg

/-- The messages of one socket when the timeout occurs. -/
theorem mapM_sendPending {name : CtrlMsg → Option Bytes} (env : SockEnv) {o : Option CtrlSock}
    (h : ∀ p, o = some p → p.Sound name) :
    ∃ o', o.mapM (fun p => p.sendPending env name 0 p.msgQueue) = .ok o' ∧
      o'.isSome = o.isSome ∧ ∀ p', o' = some p' → p'.Sound name ∧
        (∃ p, o = some p ∧ p'.msgQueue ⊆ p.msgQueue) ∧ (p'.msgQueue ≠ [] → p'.sock = true) := by
  cases o with
  | none => exact ⟨none,rfl,rfl,fun p' hp' => by cases hp'⟩
  | some p =>
    obtain ⟨p',hrun,hp',hsub,hopen⟩ := sendPending_ok env 0 (h p rfl) rfl
    refine ⟨some p',?_,rfl,?_⟩
    · rw [Option.mapM_some,hrun]
      rfl
    · rintro q ⟨rfl⟩
      exact ⟨hp',⟨p,rfl,hsub⟩,hopen⟩

theorem Sound.queueTimeout (h : s.Sound ifname timed owned) (genv : SockEnv) {env : SockEnv}
    {wpaS : ℕ} (hwait : s.timers wpaS = true) (htimer : timed → env.timer = true) :
    ∃ s', s.queueTimeout ifname genv env wpaS = .ok s' ∧ s'.Sound ifname timed owned := by
  obtain ⟨g',hg,-,hglobal⟩ := mapM_sendPending genv h.globals
  obtain ⟨p',hp,hsome,hiface⟩ := mapM_sendPending env (h.ifaces wpaS)
  rw [CtrlIfaces.queueTimeout,hg,ok_bind,hp,ok_bind]
  have hat : ∀ {w q}, Function.update s.iface wpaS p' w = some q →
      w = wpaS ∧ p' = some q ∨ w ≠ wpaS ∧ s.iface w = some q := fun {w q} hq => by
    by_cases hw : w = wpaS
    · rw [hw,Function.update_self] at hq
      exact .inl ⟨hw,hq⟩
    · rw [Function.update_of_ne hw] at hq
      exact .inr ⟨hw,hq⟩
  have hwaits : ∀ {o : Option CtrlSock} {q}, o = some q → q.sock = true → q.msgQueue ≠ [] →
      o.any (fun p => p.sock && !p.msgQueue.isEmpty) = true := by
    rintro o q rfl hopen hne
    rw [Option.any_some,hopen,Bool.true_and,Bool.not_eq_true',List.isEmpty_eq_false_iff]
    exact hne
  refine ⟨_,rfl,⟨fun q hq => (hglobal q hq).1,fun w q hq => ?_,fun ht q hq m hm => ?_,
    fun ht w q hq hne => ?_,fun ho w hw => ?_⟩⟩
  · rcases hat hq with ⟨-,hq⟩ | ⟨-,hq⟩
    · exact (hiface q hq).1
    · exact h.ifaces w q hq
  · obtain ⟨-,⟨p,hp,hsub⟩,hopen⟩ := hglobal q hq
    have hne := List.ne_nil_of_mem hm
    by_cases hw : m.wpaS = wpaS
    · rw [hw]
      refine (Function.update_self _ _ _).trans ?_
      rw [hwaits hq (hopen hne) hne,Bool.true_or,htimer ht,Bool.and_true]
    · exact (Function.update_of_ne hw _ _).trans (h.globalTimers ht p hp m (hsub hm))
  · rcases hat hq with ⟨rfl,hq'⟩ | ⟨hw,hq'⟩
    · refine (Function.update_self _ _ _).trans ?_
      rw [hwaits hq' ((hiface q hq').2.2 hne) hne,Bool.or_true,htimer ht,Bool.and_true]
    · exact (Function.update_of_ne hw _ _).trans (h.ifaceTimers ht w q hq' hne)
  · change (Function.update s.iface wpaS p' w).isSome
    by_cases hw' : w = wpaS
    · rw [hw',Function.update_self,hsome]
      exact h.alive ho wpaS hwait
    · rw [Function.update_of_ne hw']
      exact h.alive ho w ((Function.update_of_ne hw' _ _).symm.trans hw)

/-- A socket whose queue and sending are as before, in the place of that of an interface. -/
theorem Sound.replace (h : s.Sound ifname timed owned) {wpaS : ℕ} {p p' : CtrlSock}
    (hp : s.iface wpaS = some p) (hp' : p'.Sound fun _ => none) (hqueue : p'.msgQueue = p.msgQueue) :
    Sound ifname timed owned { s with iface := Function.update s.iface wpaS (some p') } := by
  refine ⟨h.globals,fun w q hq => ?_,h.globalTimers,fun ht w q hq hne => ?_,fun ho w hw => ?_⟩
  · change Function.update s.iface wpaS (some p') w = some q at hq
    by_cases hw : w = wpaS
    · rw [hw,Function.update_self] at hq
      exact Option.some.inj hq ▸ hp'
    · rw [Function.update_of_ne hw] at hq
      exact h.ifaces w q hq
  · change Function.update s.iface wpaS (some p') w = some q at hq
    by_cases hw : w = wpaS
    · rw [hw,Function.update_self] at hq
      rw [← Option.some.inj hq,hqueue] at hne
      exact hw ▸ h.ifaceTimers ht wpaS p hp hne
    · rw [Function.update_of_ne hw] at hq
      exact h.ifaceTimers ht w q hq hne
  · change (Function.update s.iface wpaS (some p') w).isSome
    by_cases hw' : w = wpaS
    · rw [hw',Function.update_self]
      rfl
    · rw [Function.update_of_ne hw']
      exact h.alive ho w hw

theorem Sound.ifaceInit (h : s.Sound ifname timed owned) (wpaS : ℕ) (sock : Bool) :
    (s.ifaceInit wpaS sock).Sound ifname timed owned := by
  refine ⟨h.globals,fun w q hq => ?_,h.globalTimers,fun ht w q hq hne => ?_,fun ho w hw => ?_⟩
  · change Function.update s.iface wpaS (some (.init sock)) w = some q at hq
    by_cases hw : w = wpaS
    · rw [hw,Function.update_self] at hq
      exact Option.some.inj hq ▸ sound_init sock
    · rw [Function.update_of_ne hw] at hq
      exact h.ifaces w q hq
  · change Function.update s.iface wpaS (some (.init sock)) w = some q at hq
    by_cases hw : w = wpaS
    · rw [hw,Function.update_self] at hq
      rw [← Option.some.inj hq] at hne
      exact absurd rfl hne
    · rw [Function.update_of_ne hw] at hq
      exact h.ifaceTimers ht w q hq hne
  · change (Function.update s.iface wpaS (some (.init sock)) w).isSome
    by_cases hw' : w = wpaS
    · rw [hw',Function.update_self]
      rfl
    · rw [Function.update_of_ne hw']
      exact h.alive ho w hw

theorem Sound.ifaceDeinit (h : s.Sound ifname timed owned) (wpaS : ℕ) :
    (s.ifaceDeinit wpaS).Sound ifname timed owned := by
  have hother : ∀ {w q}, Function.update s.iface wpaS none w = some q →
      w ≠ wpaS ∧ s.iface w = some q := fun {w q} hq => by
    by_cases hw : w = wpaS
    · rw [hw,Function.update_self] at hq
      cases hq
    · rw [Function.update_of_ne hw] at hq
      exact ⟨hw,hq⟩
  have hglobal : ∀ {q}, (s.ifaceDeinit wpaS).global = some q → ∃ p, s.global = some p ∧
      q = { p with msgQueue := p.msgQueue.filter fun msg => msg.wpaS ≠ wpaS
                   lost := p.lost ++ p.msgQueue.filter fun msg => msg.wpaS = wpaS } := fun {q} hq => by
    obtain ⟨p,hp,rfl⟩ := Option.map_eq_some_iff.mp hq
    exact ⟨p,hp,rfl⟩
  refine ⟨fun q hq => ?_,fun w q hq => h.ifaces w q (hother hq).2,fun ht q hq m hm => ?_,
    fun ht w q hq hne => ?_,fun ho w hw => ?_⟩
  · obtain ⟨p,hp,rfl⟩ := hglobal hq
    have hdrop := (h.globals p hp).drop fun msg => msg.wpaS = wpaS
    simpa only [decide_not] using hdrop
  · obtain ⟨p,hp,rfl⟩ := hglobal hq
    obtain ⟨hm,hw⟩ := List.mem_filter.mp hm
    exact (Function.update_of_ne (of_decide_eq_true hw) _ _).trans (h.globalTimers ht p hp m hm)
  · exact (Function.update_of_ne (hother hq).1 _ _).trans (h.ifaceTimers ht w q (hother hq).2 hne)
  · change Function.update s.timers wpaS false w = true at hw
    change (Function.update s.iface wpaS none w).isSome
    by_cases hw' : w = wpaS
    · rw [hw',Function.update_self] at hw
      cases hw
    · rw [Function.update_of_ne hw'] at hw ⊢
      exact h.alive ho w hw

section Runs

/-- The states that the sockets can be in. That no program attaches again before it is detached
(`once`), that every timeout can be registered (`timed`), and that messages come from interfaces with
a socket of their own (`owned`) is promised only where that is said. -/
inductive Reached (ifname : ℕ → Bytes) (once timed owned : Prop) : CtrlIfaces → Prop
  | start (global : Option Bool) :
      Reached ifname once timed owned ⟨global.map .init,fun _ => none,fun _ => false⟩
  | init {s : CtrlIfaces} (h : Reached ifname once timed owned s) {wpaS : ℕ}
      (hnone : s.iface wpaS = none) (sock : Bool) :
      Reached ifname once timed owned (s.ifaceInit wpaS sock)
  | deinit {s : CtrlIfaces} (h : Reached ifname once timed owned s) {wpaS : ℕ}
      (hsome : (s.iface wpaS).isSome) : Reached ifname once timed owned (s.ifaceDeinit wpaS)
  | msg {s s' : CtrlIfaces} (h : Reached ifname once timed owned s) {genv env : SockEnv}
      {msg : CtrlMsg} (htimer : timed → genv.timer = true ∧ env.timer = true)
      (hiface : owned → (s.iface msg.wpaS).isSome) (hrun : s.msgCb ifname genv env msg = .ok s') :
      Reached ifname once timed owned s'
  | timeout {s s' : CtrlIfaces} (h : Reached ifname once timed owned s) {genv env : SockEnv}
      {wpaS : ℕ} (hwait : s.timers wpaS = true) (htimer : timed → env.timer = true)
      (hrun : s.queueTimeout ifname genv env wpaS = .ok s') : Reached ifname once timed owned s'
  | request {s : CtrlIfaces} {p p' : CtrlSock} (h : Reached ifname once timed owned s) {wpaS : ℕ}
      (hp : s.iface wpaS = some p)
      {from' buf reply : Bytes} {mem : Bool} {result : SendResult}
      (honce : once → buf = ascii "ATTACH" → ∀ dst ∈ p.ctrlDst, dst.addr ≠ from')
      (hrun : p.receive from' buf mem result = some (p',reply)) :
      Reached ifname once timed owned { s with iface := Function.update s.iface wpaS (some p') }
  | close {s : CtrlIfaces} {p : CtrlSock} (h : Reached ifname once timed owned s) {wpaS : ℕ}
      (hp : s.iface wpaS = some p) :
      Reached ifname once timed owned
        { s with iface := Function.update s.iface wpaS (some { p with sock := false }) }
  | globalRequest {s : CtrlIfaces} {p p' : CtrlSock} (h : Reached ifname once timed owned s)
      (hp : s.global = some p)
      {from' buf reply : Bytes} {mem : Bool}
      (honce : once → buf = ascii "ATTACH" → ∀ dst ∈ p.ctrlDst, dst.addr ≠ from')
      (hrun : p.receiveGlobal from' buf mem = some (p',reply)) :
      Reached ifname once timed owned { s with global := some p' }

variable {once : Prop}

theorem attach_queue (p : CtrlSock) (from' : Bytes) (mem : Bool) :
    (p.attach from' mem).1.msgQueue = p.msgQueue := by
  rw [attach]
  split <;> rfl

theorem detach_queue (p : CtrlSock) (from' : Bytes) : (p.detach from').1.msgQueue = p.msgQueue := by
  rw [detach]
  split <;> rfl

theorem level_queue (p : CtrlSock) (from' txt : Bytes) :
    (p.level from' txt).1.msgQueue = p.msgQueue := by
  rw [level]
  split <;> rfl

/-- The requests of monitors do not touch the messages that wait. -/
theorem receive_queue {p p' : CtrlSock} {from' buf reply : Bytes} {mem : Bool} {result : SendResult}
    (hrun : p.receive from' buf mem result = some (p',reply)) : p'.msgQueue = p.msgQueue := by
  rw [receive] at hrun
  simp only at hrun
  split at hrun
  · cases hrun
    split <;> split <;> simp only [detach_queue,attach_queue]
  split at hrun
  · cases hrun
    split <;> split <;> simp only [detach_queue]
  split at hrun
  · cases hrun
    split <;> split <;> simp only [detach_queue,level_queue]
  · cases hrun

theorem receiveGlobal_queue {p p' : CtrlSock} {from' buf reply : Bytes} {mem : Bool}
    (hrun : p.receiveGlobal from' buf mem = some (p',reply)) : p'.msgQueue = p.msgQueue := by
  rw [receiveGlobal] at hrun
  split at hrun
  · cases hrun
    exact attach_queue p from' mem
  split at hrun
  · cases hrun
    exact detach_queue p from'
  · cases hrun

theorem Reached.sound (h : Reached ifname once timed owned s) : s.Sound ifname timed owned := by
  induction h with
  | start global =>
    refine ⟨fun p hp => ?_,fun w p hp => (by cases hp),fun _ p hp m hm => ?_,
      fun _ w p hp => (by cases hp),fun _ w hw => (by cases hw)⟩
    · obtain ⟨sock,-,rfl⟩ := Option.map_eq_some_iff.mp hp
      exact sound_init sock
    · obtain ⟨sock,-,rfl⟩ := Option.map_eq_some_iff.mp hp
      exact absurd hm List.not_mem_nil
  | init _ _ sock ih => exact ih.ifaceInit _ sock
  | deinit _ _ ih => exact ih.ifaceDeinit _
  | msg _ htimer hiface hrun ih =>
    obtain ⟨s'',hrun',hs''⟩ := ih.msgCb htimer hiface
    cases hrun.symm.trans hrun'
    exact hs''
  | timeout _ hwait htimer hrun ih =>
    obtain ⟨s'',hrun',hs''⟩ := ih.queueTimeout _ hwait htimer
    cases hrun.symm.trans hrun'
    exact hs''
  | request _ hp _ hrun ih =>
    exact ih.replace hp ((ih.ifaces _ _ hp).receive hrun) (receive_queue hrun)
  | close _ hp ih => exact ih.replace hp (ih.ifaces _ _ hp).close rfl
  | @globalRequest s p p' _ hp from' buf reply mem _ hrun ih =>
    refine ⟨fun q hq => ?_,ih.ifaces,fun ht q hq m hm => ?_,ih.ifaceTimers,ih.alive⟩
    · cases hq
      exact (ih.globals p hp).receiveGlobal hrun
    · cases hq
      rw [receiveGlobal_queue hrun] at hm
      exact ih.globalTimers ht p hp m hm

/-- Without any promise. -/
theorem Sound.plain (h : s.Sound ifname timed owned) : s.Sound ifname False False :=
  ⟨h.globals,h.ifaces,False.elim,False.elim,False.elim⟩

/-- One of the sockets, and the name that it puts in front of a message. -/
inductive IsSock (ifname : ℕ → Bytes) (s : CtrlIfaces) :
    (CtrlMsg → Option Bytes) → CtrlSock → Prop
  | global {p : CtrlSock} (h : s.global = some p) : IsSock ifname s (globalName ifname) p
  | iface {wpaS : ℕ} {p : CtrlSock} (h : s.iface wpaS = some p) : IsSock ifname s (fun _ => none) p

theorem Sound.sock (h : s.Sound ifname timed owned) {name : CtrlMsg → Option Bytes} {p : CtrlSock}
    (hp : IsSock ifname s name p) : p.Sound name := by
  cases hp with
  | global hp => exact h.globals p hp
  | iface hp => exact h.ifaces _ p hp

section Samples

/-- A value for the interface 0 and one for all others. -/
def atZero {α : Type} (a b : α) (w : ℕ) : α := if w = 0 then a else b

theorem update_atZero {α : Type} (a a' b : α) :
    Function.update (atZero a b) 0 a' = atZero a' b := by
  funext w
  by_cases hw : w = 0
  · rw [hw,Function.update_self,atZero,if_pos rfl]
  · rw [Function.update_of_ne hw,atZero,atZero,if_neg hw,if_neg hw]

/-- The interface 0 is the only one that has a socket. -/
def sampleIfaces (p : CtrlSock) (timer : Bool) : CtrlIfaces :=
  ⟨none,atZero (some p) none,atZero timer false⟩

theorem sample_isSock (p : CtrlSock) (timer : Bool) :
    IsSock (fun _ => []) (sampleIfaces p timer) (fun _ => none) p :=
  .iface (show (sampleIfaces p timer).iface 0 = some p from rfl)

abbrev SampleReached := Reached (fun _ => []) True True True

theorem sample_request {timer : Bool} {p p' : CtrlSock} (h : SampleReached (sampleIfaces p timer))
    {addr buf reply : Bytes} (honce : ∀ dst ∈ p.ctrlDst, dst.addr ≠ addr)
    (hrun : p.receive addr buf true .sent = some (p',reply)) :
    SampleReached (sampleIfaces p' timer) := by
  have hstep := h.request (show (sampleIfaces p timer).iface 0 = some p from rfl)
    (fun _ _ => honce) hrun
  rwa [sampleIfaces,update_atZero] at hstep

theorem postIface_of {env : SockEnv} {msg : CtrlMsg} {p p' : CtrlSock} {waits : Bool}
    (hiface : s.iface msg.wpaS = some p) (htype : msg.type ≠ .onlyGlobal)
    (hrun : p.post env (fun _ => none) msg = .ok (p',waits)) :
    s.postIface env msg = .ok { s with
      iface := Function.update s.iface msg.wpaS (some p')
      timers := s.timersFor msg.wpaS waits env.timer } := by
  rw [CtrlIfaces.postIface,hiface]
  simp only
  rw [if_pos htype,hrun]
  rfl

theorem sample_msg {p p' : CtrlSock} {timer waits : Bool} (h : SampleReached (sampleIfaces p timer))
    (env : SockEnv) (htimer : env.timer = true) (txt : Bytes)
    (hrun : p.post env (fun _ => none) ⟨0,msgInfo,.perInterface,txt⟩ = .ok (p',waits)) :
    SampleReached (sampleIfaces p' (if waits then true else timer)) := by
  have hcb : (sampleIfaces p timer).msgCb (fun _ => []) env env ⟨0,msgInfo,.perInterface,txt⟩ =
      .ok ⟨none,Function.update (atZero (some p) none) 0 (some p'),
        (sampleIfaces p timer).timersFor 0 waits env.timer⟩ := by
    change (sampleIfaces p timer).postIface env ⟨0,msgInfo,.perInterface,txt⟩ = _
    exact postIface_of rfl nofun hrun
  have hstep := h.msg (fun _ => ⟨htimer,htimer⟩) (fun _ => rfl) hcb
  rwa [timersFor,sampleIfaces,update_atZero,update_atZero,htimer] at hstep

theorem sample_timeout {p p' : CtrlSock} (h : SampleReached (sampleIfaces p true)) (env : SockEnv)
    (htimer : env.timer = true)
    (hrun : p.sendPending env (fun _ => none) 0 p.msgQueue = .ok p') :
    SampleReached (sampleIfaces p' (p'.sock && !p'.msgQueue.isEmpty)) := by
  have hcb : (sampleIfaces p true).queueTimeout (fun _ => []) env env 0 =
      .ok ⟨none,Function.update (atZero (some p) none) 0 (some p'),Function.update (atZero true false) 0
        ((false || (p'.sock && !p'.msgQueue.isEmpty)) && env.timer)⟩ := by
    change (do
      let p' ← (some p).mapM fun p => p.sendPending env (fun _ => none) 0 p.msgQueue
      return _ : Except CtrlFault CtrlIfaces) = _
    rw [Option.mapM_some,hrun]
    rfl
  have hstep := h.timeout rfl (fun _ => htimer) hcb
  rwa [update_atZero,update_atZero,htimer,Bool.false_or,Bool.and_true] at hstep

/-- The socket may be busy, and one result is for the monitor that was attached last. -/
def sampleEnv (busy : Bool) (last : SendResult) : SockEnv :=
  ⟨fun _ => busy,true,true,fun _ ptr => if ptr = 1 then last else .sent⟩

def sampleMsg (txt : Bytes) : CtrlMsg := ⟨0,msgInfo,.perInterface,txt⟩

/-- One message failed for the last monitor, and another one waits. -/
def busySock : CtrlSock :=
  ⟨true,[⟨1,[2],msgInfo,1,[ascii "<3>one"],[(ascii "<3>one",false)]⟩,
      ⟨0,[1],msgInfo,0,[ascii "<3>one"],[(ascii "<3>one",true)]⟩],
    [sampleMsg (ascii "two")],1,2,[sampleMsg (ascii "one"),sampleMsg (ascii "two")],
    [sampleMsg (ascii "one")],[]⟩

/-- The socket was closed when that one failed as well. -/
def closedSock : CtrlSock :=
  ⟨false,[⟨1,[2],msgInfo,2,[ascii "<3>one",ascii "<3>two"],
        [(ascii "<3>one",false),(ascii "<3>two",false)]⟩,
      ⟨0,[1],msgInfo,0,[ascii "<3>one",ascii "<3>two"],[(ascii "<3>one",true)]⟩],
    [],1,2,[sampleMsg (ascii "one"),sampleMsg (ascii "two")],
    [sampleMsg (ascii "one"),sampleMsg (ascii "two")],[]⟩

theorem sample_busy : SampleReached (sampleIfaces busySock true) := by
  have hsame : ∀ {α : Type} (a : α), (fun _ => a) = atZero a a := fun a => funext fun w =>
    (ite_self a).symm
  have hstep : SampleReached ((⟨none,fun _ => none,fun _ => false⟩ : CtrlIfaces).ifaceInit 0 true) :=
    .init (.start none) rfl true
  rw [ifaceInit,hsame none,hsame false,update_atZero] at hstep
  have hstep : SampleReached (sampleIfaces (.init true) false) := hstep
  have hfirst := sample_request hstep (fun _ h => absurd h List.not_mem_nil)
    (rfl : (CtrlSock.init true).receive [1] (ascii "ATTACH") true .sent = some (_,ascii "OK\n"))
  have hsecond := sample_request hfirst (fun dst hdst => by
    rw [List.mem_singleton.mp hdst]
    decide) (rfl : CtrlSock.receive _ [2] (ascii "ATTACH") true .sent = some (_,ascii "OK\n"))
  have hone := sample_msg hsecond (sampleEnv false .failed) rfl (ascii "one") rfl
  exact sample_msg hone (sampleEnv true .sent) rfl (ascii "two") rfl

theorem sample_closed : SampleReached (sampleIfaces closedSock false) :=
  sample_timeout sample_busy (sampleEnv false (.full false)) rfl
    (rfl : busySock.sendPending _ (fun _ => none) 0 busySock.msgQueue = .ok closedSock)

end Samples

/-- Nobody is attached twice or failed too often at any socket. -/
structure AllBounded (s : CtrlIfaces) : Prop where
  globals : ∀ p, s.global = some p → Bounded p.ctrlDst
  ifaces : ∀ w p, s.iface w = some p → Bounded p.ctrlDst

theorem AllBounded.update (h : s.AllBounded) {wpaS : ℕ} {o : Option CtrlSock}
    (ho : ∀ p, o = some p → Bounded p.ctrlDst) (timers : ℕ → Bool) :
    AllBounded ⟨s.global,Function.update s.iface wpaS o,timers⟩ := by
  refine ⟨h.globals,fun w p hp => ?_⟩
  change Function.update s.iface wpaS o w = some p at hp
  by_cases hw : w = wpaS
  · rw [hw,Function.update_self] at hp
    exact ho p hp
  · rw [Function.update_of_ne hw] at hp
    exact h.ifaces w p hp

theorem AllBounded.msgCb (h : s.AllBounded) {genv env : SockEnv} {msg : CtrlMsg} {s' : CtrlIfaces}
    (hrun : s.msgCb ifname genv env msg = .ok s') : s'.AllBounded := by
  have hglobal : ∀ {s₁}, s.postGlobal ifname genv msg = .ok s₁ → s₁.AllBounded := by
    intro s₁ hrun
    rw [CtrlIfaces.postGlobal] at hrun
    split at hrun
    · cases hrun
      exact h
    rename_i p hp
    split at hrun
    · cases hpost : p.post genv (globalName ifname) msg with
      | error e =>
        rw [hpost] at hrun
        cases hrun
      | ok r =>
        rw [hpost] at hrun
        cases hrun
        exact ⟨fun q hq => Option.some.inj hq ▸ post_bounded (h.globals p hp) hpost,h.ifaces⟩
    · cases hrun
      exact h
  rw [CtrlIfaces.msgCb] at hrun
  cases hpost : s.postGlobal ifname genv msg with
  | error e =>
    rw [hpost] at hrun
    cases hrun
  | ok s₁ =>
    have hs₁ := hglobal hpost
    rw [hpost,ok_bind,CtrlIfaces.postIface] at hrun
    split at hrun
    · cases hrun
      exact hs₁
    rename_i p hp
    split at hrun
    · cases hpost' : p.post env (fun _ => none) msg with
      | error e =>
        rw [hpost'] at hrun
        cases hrun
      | ok r =>
        rw [hpost'] at hrun
        cases hrun
        exact hs₁.update (fun q hq => Option.some.inj hq ▸ post_bounded (hs₁.ifaces _ p hp) hpost') _
    · cases hrun
      exact hs₁

theorem mapM_bounded {env : SockEnv} {name : CtrlMsg → Option Bytes} {o o' : Option CtrlSock}
    (h : ∀ p, o = some p → Bounded p.ctrlDst)
    (hrun : o.mapM (fun p => p.sendPending env name 0 p.msgQueue) = .ok o') :
    ∀ p, o' = some p → Bounded p.ctrlDst := by
  intro p hp
  cases o with
  | none =>
    cases hrun
    cases hp
  | some q =>
    rw [Option.mapM_some] at hrun
    cases hsend : q.sendPending env name 0 q.msgQueue with
    | error e =>
      rw [hsend] at hrun
      cases hrun
    | ok q' =>
      rw [hsend] at hrun
      cases hrun
      exact Option.some.inj hp ▸ sendPending_bounded (h q rfl) hsend

theorem AllBounded.queueTimeout (h : s.AllBounded) {genv env : SockEnv} {wpaS : ℕ} {s' : CtrlIfaces}
    (hrun : s.queueTimeout ifname genv env wpaS = .ok s') : s'.AllBounded := by
  rw [CtrlIfaces.queueTimeout] at hrun
  cases hg : s.global.mapM fun p => p.sendPending genv (globalName ifname) 0 p.msgQueue with
  | error e =>
    rw [hg] at hrun
    cases hrun
  | ok g' =>
    rw [hg,ok_bind] at hrun
    cases hp : (s.iface wpaS).mapM fun p => p.sendPending env (fun _ => none) 0 p.msgQueue with
    | error e =>
      rw [hp] at hrun
      cases hrun
    | ok p' =>
      rw [hp] at hrun
      cases hrun
      have hglobal : AllBounded ⟨g',s.iface,s.timers⟩ := ⟨mapM_bounded h.globals hg,h.ifaces⟩
      exact hglobal.update (mapM_bounded (h.ifaces wpaS) hp) _

theorem Reached.bounded (h : Reached ifname True timed owned s) : s.AllBounded := by
  induction h with
  | start global =>
    refine ⟨fun p hp => ?_,fun w p hp => (by cases hp)⟩
    obtain ⟨sock,-,rfl⟩ := Option.map_eq_some_iff.mp hp
    exact ⟨.nil,fun _ h => absurd h List.not_mem_nil⟩
  | init _ _ sock ih =>
    refine ih.update (fun p hp => ?_) _
    rw [← Option.some.inj hp]
    exact ⟨.nil,fun _ h => absurd h List.not_mem_nil⟩
  | @deinit s _ wpaS _ ih =>
    have hglobal : AllBounded ⟨(s.ifaceDeinit wpaS).global,s.iface,s.timers⟩ := by
      refine ⟨fun p hp => ?_,ih.ifaces⟩
      obtain ⟨q,hq,rfl⟩ := Option.map_eq_some_iff.mp hp
      exact ih.globals q hq
    exact hglobal.update (fun p hp => (by cases hp)) _
  | msg _ _ _ hrun ih => exact ih.msgCb hrun
  | timeout _ _ _ hrun ih => exact ih.queueTimeout hrun
  | request _ hp honce hrun ih =>
    exact ih.update (fun q hq => Option.some.inj hq ▸
      receive_bounded (ih.ifaces _ _ hp) (honce trivial) hrun) _
  | close _ hp ih =>
    have hbounded := ih.ifaces _ _ hp
    refine ih.update (fun q hq => ?_) _
    rw [← Option.some.inj hq]
    exact hbounded
  | globalRequest _ hp honce hrun ih =>
    exact ⟨fun q hq => Option.some.inj hq ▸ receiveGlobal_bounded (ih.globals _ hp) (honce trivial) hrun,
      ih.ifaces⟩

/-- When no program attaches twice, a monitor is detached after its eleventh failure in a row: those
that are attached did not fail more than ten times since something was sent to them. -/
theorem failing_monitors_leave (h : Reached ifname True timed owned s)
    {name : CtrlMsg → Option Bytes} {p : CtrlSock} (hp : IsSock ifname s name p) :
    (p.ctrlDst.map WpaCtrlDst.addr).Nodup ∧ ∀ dst ∈ p.ctrlDst, (dst.tries.reverse.takeWhile (!·.2)).length ≤ 10 := by
  have hbounded : Bounded p.ctrlDst := by
    cases hp with
    | global hp => exact h.bounded.globals p hp
    | iface hp => exact h.bounded.ifaces _ p hp
  refine ⟨hbounded.1,fun dst hdst => ?_⟩
  rw [← ((h.sound.sock hp).attached.each dst hdst).errors]
  exact hbounded.2 dst hdst

/-- Two failures in a row are counted, and the monitor is still there. -/
theorem failing_monitors_leave_sample :
    (closedSock.ctrlDst.map WpaCtrlDst.addr).Nodup ∧ ∃ dst ∈ closedSock.ctrlDst,
      dst.errors = 2 ∧ dst.tries.map Prod.snd = [false,false] ∧
      (dst.tries.reverse.takeWhile (!·.2)).length ≤ 10 := by
  obtain ⟨hnodup,hfew⟩ := failing_monitors_leave sample_closed (sample_isSock closedSock false)
  exact ⟨hnodup,_,List.mem_cons_self,rfl,rfl,hfew _ List.mem_cons_self⟩

end Runs

end CtrlIfaces

end WpaCliWrapper
