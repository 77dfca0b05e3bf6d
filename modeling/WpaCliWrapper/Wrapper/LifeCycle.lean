import WpaCliWrapper.Wrapper.Execute

/-! The life cycle of the library: `init_wpa_cli`, `wpa_cli_execute` and `deinit_wpa_cli` in any
order, with a pointer `ctrl_ifname` that may be left to memory that was freed. -/
namespace WpaCliWrapper
open CText Exchange

variable {D : Daemon}

/-- The static variables, and every text that was allocated for `ctrl_ifname` so far: `none` where
it was freed. A pointer is the position of a text. -/
structure Library (D : Daemon) where
  wrapper : Wrapper D
  monConn : Option (Conn D)
  attached : Bool
  ctrlIfname : Option ℕ
  texts : List (Option Bytes)

/-- How a call can leave defined behaviour. -/
inductive Misuse
  | execute (fault : Fault)
  | freedIfname
  deriving DecidableEq

/-- What `init_wpa_cli` finds: an interface to select, memory, the directory of the sockets, and
who listens at a path. -/
structure Surroundings (D : Daemon) where
  selected : Option Bytes
  memory : Bool
  access : Bool
  cfileMemory : Bool
  connect : Bytes → Option (Conn D)
  monitor : Bytes → Option (Conn D)
  attach : Bool

namespace Library

def start : Library D := ⟨⟨false,none,none,[],[]⟩,none,false,none,[]⟩

def read (lib : Library D) (p : ℕ) : Except Misuse Bytes :=
  match lib.texts[p]? with
  | some (some text) => .ok text
  | _ => .error .freedIfname

def free (lib : Library D) : Option ℕ → Except Misuse (Library D)
  | none => .ok lib
  | some p => do
    let _ ← lib.read p
    return { lib with texts := lib.texts.set p none }

/-- What is assigned to `ctrl_ifname`, a new allocation or `NULL`. -/
def setIfname (lib : Library D) : Option Bytes → Library D
  | none => { lib with ctrlIfname := none }
  | some text => { lib with ctrlIfname := some lib.texts.length, texts := lib.texts ++ [some text] }

def withConn (lib : Library D) (conn : Option (Conn D)) : Library D :=
  { lib with wrapper := { lib.wrapper with ctrlConn := conn } }

def withInitialized (lib : Library D) (initialized : Bool) : Library D :=
  { lib with wrapper := { lib.wrapper with initialized } }

end Library

def ctrlIfaceDir : Bytes := ascii "/var/run/wpa_supplicant"

def wpaCliCloseConnection (lib : Library D) : Library D :=
  match lib.wrapper.ctrlConn with
  | none => lib
  | some _ => { lib.withConn none with monConn := none, attached := false }

def wpaCliCleanup (lib : Library D) : Library D := wpaCliCloseConnection lib

section Calls
variable (cfg : BuildConfig)

def wpaCliGetDefaultIfname (w : Wrapper D) (s : Surroundings D) : Wrapper D × Option Bytes :=
  match s.selected with
  | none => (w,none)
  | some name =>
    let ifname := if s.memory then some name else none
    if cfg .android then
      (w.print (ascii "Using interface '" ++ ifname.getD (ascii "N/A") ++ ascii "'\n"),ifname)
    else (w.print (ascii "Selected interface '" ++ name ++ ascii "'\n"),ifname)

def wpaCliOpenConnection (lib : Library D) (ifname : Option ℕ) (attach : Bool)
    (s : Surroundings D) : Except Misuse (Library D × ℤ) :=
  match ifname with
  | none => .ok (lib,-1)
  | some p => do
    let name ← lib.read p
    let cfile := if cfg .android && !s.access then name else ctrlIfaceDir ++ 47 :: name
    if !s.cfileMemory then return (lib,-1)
    match s.connect cfile with
    | none => return (lib.withConn none,-1)
    | some conn =>
      let monConn := if attach && interactive then s.monitor cfile else none
      let lib := { lib.withConn (some conn) with monConn }
      match monConn with
      | none => return (lib,0)
      | some _ =>
        if s.attach then return ({ lib with attached := true },0)
        else return (wpaCliCloseConnection lib,-1)

/-- `ctrl_ifname` gets the default interface if it is `NULL`. -/
def Library.selectIfname (lib : Library D) (s : Surroundings D) : Library D :=
  match lib.ctrlIfname with
  | some _ => lib
  | none =>
    let (wrapper,ifname) := wpaCliGetDefaultIfname cfg lib.wrapper s
    { lib with wrapper }.setIfname ifname

def initWpaCli (lib : Library D) (s : Surroundings D) : Except Misuse (Library D × ℤ) :=
  if lib.wrapper.initialized then .ok (lib,-1)
  else do
    let lib := lib.selectIfname cfg s
    let (lib,res) ← wpaCliOpenConnection cfg lib lib.ctrlIfname false s
    if res < 0 then return (lib,-2)
    return (lib.withInitialized true,0)

/-- The pointer itself is left as it is. -/
def deinitWpaCli (lib : Library D) : Except Misuse (Library D × ℤ) :=
  if lib.wrapper.initialized then do
    let lib ← lib.free lib.ctrlIfname
    let lib := wpaCliCleanup lib
    return (lib.withInitialized false,0)
  else .ok (lib,0)

inductive LibraryCall (D : Daemon)
  | init (s : Surroundings D)
  | execute (cmd : CString) (buf : Bytes)
  | deinit

/-- One call from outside. -/
def Library.step (lib : Library D) : LibraryCall D → Except Misuse (Library D)
  | .init s => (initWpaCli cfg lib s).map Prod.fst
  | .execute cmd buf => match wpaCliExecute cfg lib.wrapper cmd buf with
    | .error fault => .error (.execute fault)
    | .ok r => .ok { lib with wrapper := r.wrapper }
  | .deinit => (deinitWpaCli lib).map Prod.fst

def Library.run (lib : Library D) (calls : List (LibraryCall D)) : Except Misuse (Library D) :=
  calls.foldlM (Library.step cfg) lib

end Calls

/-- What a command leaves alone. -/
def Wrapper.SameConnection (w w' : Wrapper D) : Prop :=
  w'.initialized = w.initialized ∧ w'.ctrlConn.isSome = w.ctrlConn.isSome

section Execute
variable {w w' w'' : Wrapper D}

theorem Wrapper.SameConnection.trans (h : w.SameConnection w') (h' : w'.SameConnection w'') :
    w.SameConnection w'' := ⟨h'.1.trans h.1,h'.2.trans h.2⟩

theorem ctrlCommand_same (w : Wrapper D) (cmd : Bytes) (print : Bool) (buf : Bytes) :
    w.SameConnection (ctrlCommand w cmd print buf).wrapper := by
  unfold ctrlCommand
  cases h : w.ctrlConn with
  | none => exact ⟨rfl,by rw [Wrapper.print,h]⟩
  | some conn =>
    dsimp only
    split
    · exact ⟨rfl,by rw [h]; rfl⟩
    · split
      · exact ⟨rfl,by rw [h]; rfl⟩
      · split <;> exact ⟨rfl,by rw [h]; rfl⟩

theorem updateNetworks_same (h : updateNetworks w = .ok w') : w.SameConnection w' := by
  unfold updateNetworks at h
  cases hc : w.ctrlConn with
  | none =>
    simp only [hc] at h
    cases h
    exact ⟨rfl,by rw [hc]⟩
  | some conn =>
    simp only [hc] at h
    split at h
    · cases h
      exact ⟨rfl,by rw [hc]; rfl⟩
    · split at h
      · cases h
      · cases h
        exact ⟨rfl,by rw [hc]; rfl⟩

theorem Plan.run_same (p : Plan) (w : Wrapper D) (buf : Bytes) :
    w.SameConnection (p.run w buf).wrapper := by
  cases p with
  | quiet messages code => exact ⟨rfl,rfl⟩
  | print text => exact ctrlCommand_same w text true _
  | ask text => exact ctrlCommand_same w text false buf

theorem Command.run_same {c : Command} {buf : Bytes} {r : Result D} (h : c.run w buf = .ok r) :
    w.SameConnection r.wrapper := by
  have hfirst : w.SameConnection (c.plan.run { w with ifnamePrefix := c.ifname } buf).wrapper :=
    Wrapper.SameConnection.trans ⟨rfl,rfl⟩ (c.plan.run_same _ buf)
  unfold run at h
  split at h
  · simp only [Result.updateNetworks] at h
    cases hu : updateNetworks (c.plan.run { w with ifnamePrefix := c.ifname } buf).wrapper with
    | error fault =>
      rw [hu] at h
      cases h
    | ok w' =>
      rw [hu] at h
      cases h
      exact hfirst.trans (updateNetworks_same hu)
  · cases h
    exact hfirst

theorem wpaCliExecute_same {cfg : BuildConfig} {cmd : CString} {buf : Bytes} {r : Result D}
    (h : wpaCliExecute cfg w cmd buf = .ok r) : w.SameConnection r.wrapper := by
  unfold wpaCliExecute at h
  split at h
  · cases h
    exact ⟨rfl,rfl⟩
  · split at h
    · cases h
    · cases hp : parseLine cmd.bytes with
      | error fault =>
        rw [hp] at h
        cases h
      | ok argv =>
        rw [hp] at h
        exact Command.run_same ((wpaRequestWithResultBuf_eq cfg w argv buf).symm.trans h)

end Execute

/-- What holds between two calls, but for `ctrl_ifname`. -/
structure Library.Sound (lib : Library D) : Prop where
  initialized : lib.wrapper.initialized = lib.wrapper.ctrlConn.isSome
  monConn : lib.monConn = none
  attached : lib.attached = false

/-- `ctrl_ifname` is `NULL` or a live allocation, and the latter while there is a connection. -/
structure Library.Alive (lib : Library D) : Prop extends lib.Sound where
  ifname : ∀ p, lib.ctrlIfname = some p → ∃ text, lib.texts[p]? = some (some text)
  named : lib.wrapper.initialized → lib.ctrlIfname ≠ none

/-- `ctrl_ifname` is left to memory that was freed. -/
structure Library.Left (lib : Library D) : Prop extends lib.Sound where
  initialized_eq : lib.wrapper.initialized = false
  ifname : ∃ p, lib.ctrlIfname = some p ∧ lib.texts[p]? = some none

section Steps
variable (cfg : BuildConfig) {lib : Library D}

theorem Library.start_alive : (Library.start : Library D).Alive where
  initialized := rfl
  monConn := rfl
  attached := rfl
  ifname p h := by cases h
  named h := by cases h

theorem Library.read_freed {p : ℕ} (h : lib.texts[p]? = some none) :
    lib.read p = .error .freedIfname := by
  rw [read,h]

theorem Library.read_live {p : ℕ} {text : Bytes} (h : lib.texts[p]? = some (some text)) :
    lib.read p = .ok text := by
  rw [read,h]

theorem Library.Sound.ctrlConn_eq (h : lib.Sound) (hi : lib.wrapper.initialized = false) :
    lib.wrapper.ctrlConn = none := by
  have hsome := h.initialized
  rw [hi] at hsome
  exact Option.not_isSome_iff_eq_none.mp (by simp [← hsome])

/-- With a live name, and no connection, a connection is opened or not. -/
theorem wpaCliOpenConnection_alive (h : lib.Alive) (hi : lib.wrapper.initialized = false)
    (s : Surroundings D) : ∃ conn res,
      wpaCliOpenConnection cfg lib lib.ctrlIfname false s = .ok (lib.withConn conn,res) ∧
        (res < 0 ∧ conn = none ∨ res = 0 ∧ conn.isSome ∧ lib.ctrlIfname ≠ none) := by
  have hsame : lib.withConn none = lib := by
    rw [Library.withConn,← h.ctrlConn_eq hi]
  cases hp : lib.ctrlIfname with
  | none => exact ⟨none,-1,by rw [wpaCliOpenConnection,hsame],.inl ⟨by decide,rfl⟩⟩
  | some p =>
    obtain ⟨text,htext⟩ := h.ifname p hp
    simp only [wpaCliOpenConnection,Library.read_live htext,bind,Except.bind]
    cases hm : s.cfileMemory with
    | false => exact ⟨none,-1,by rw [hsame]; rfl,.inl ⟨by decide,rfl⟩⟩
    | true =>
      cases hc : s.connect (if cfg .android && !s.access then text
          else ctrlIfaceDir ++ 47 :: text) with
      | none => exact ⟨none,-1,rfl,.inl ⟨by decide,rfl⟩⟩
      | some conn =>
        refine ⟨some conn,0,?_,.inr ⟨rfl,rfl,by simp⟩⟩
        simp only [Bool.false_and,Bool.false_eq_true,if_false,Bool.not_true,pure,Except.pure]
        rw [← h.monConn]
        rfl

theorem wpaCliGetDefaultIfname_same (w : Wrapper D) (s : Surroundings D) :
    (wpaCliGetDefaultIfname cfg w s).1.initialized = w.initialized ∧
      (wpaCliGetDefaultIfname cfg w s).1.ctrlConn = w.ctrlConn := by
  unfold wpaCliGetDefaultIfname
  split
  · exact ⟨rfl,rfl⟩
  · dsimp only
    split <;> exact ⟨rfl,rfl⟩

theorem Library.selectIfname_alive (h : lib.Alive) (hi : lib.wrapper.initialized = false)
    (s : Surroundings D) : (lib.selectIfname cfg s).Alive ∧
      (lib.selectIfname cfg s).wrapper.initialized = false := by
  cases hp : lib.ctrlIfname with
  | some p =>
    rw [selectIfname,hp]
    exact ⟨h,hi⟩
  | none =>
    obtain ⟨hinit,hconn⟩ := wpaCliGetDefaultIfname_same cfg lib.wrapper s
    rw [selectIfname,hp]
    dsimp only
    generalize wpaCliGetDefaultIfname cfg lib.wrapper s = r at *
    have hi' : r.1.initialized = false := hinit.trans hi
    have hsound : r.1.initialized = r.1.ctrlConn.isSome := by rw [hinit,hconn,h.initialized]
    cases r.2 with
    | none =>
      refine ⟨⟨⟨hsound,h.monConn,h.attached⟩,fun p hp => ?_,fun ht => ?_⟩,hi'⟩
      · cases hp
      · exact absurd (hi'.symm.trans ht) (by decide)
    | some text =>
      refine ⟨⟨⟨hsound,h.monConn,h.attached⟩,fun p hp => ?_,fun _ hnone => ?_⟩,hi'⟩
      · cases hp
        exact ⟨text,by simp [setIfname]⟩
      · cases hnone

theorem initWpaCli_alive (h : lib.Alive) (s : Surroundings D) :
    ∃ lib' res, initWpaCli cfg lib s = .ok (lib',res) ∧ lib'.Alive := by
  unfold initWpaCli
  cases hi : lib.wrapper.initialized with
  | true => exact ⟨lib,-1,rfl,h⟩
  | false =>
    obtain ⟨h₁,hi₁⟩ := Library.selectIfname_alive cfg h hi s
    obtain ⟨conn,res,hopen,hres⟩ := wpaCliOpenConnection_alive cfg h₁ hi₁ s
    simp only [hopen,bind,Except.bind,Bool.false_eq_true,if_false]
    rcases hres with ⟨hneg,rfl⟩ | ⟨rfl,hsome,hnamed⟩
    · have hnone : (lib.selectIfname cfg s).withConn none = lib.selectIfname cfg s := by
        rw [Library.withConn,← h₁.ctrlConn_eq hi₁]
      exact ⟨_,-2,by rw [if_pos hneg,hnone]; rfl,h₁⟩
    · exact ⟨_,0,rfl,⟨⟨hsome.symm,h₁.monConn,h₁.attached⟩,h₁.ifname,fun _ => hnamed⟩⟩

/-- After a `deinit_wpa_cli` that found a connection the name is gone, and still pointed to. -/
theorem deinitWpaCli_alive (h : lib.Alive) : ∃ lib', deinitWpaCli lib = .ok (lib',0) ∧
    if lib.wrapper.initialized then lib'.Left else lib'.Alive := by
  unfold deinitWpaCli
  cases hi : lib.wrapper.initialized with
  | false => exact ⟨lib,rfl,h⟩
  | true =>
    obtain ⟨p,hp⟩ := Option.ne_none_iff_exists'.mp (h.named hi)
    obtain ⟨text,htext⟩ := h.ifname p hp
    have hlt := (List.getElem?_eq_some_iff.mp htext).1
    have hsome : lib.wrapper.ctrlConn.isSome := by rw [← h.initialized,hi]
    obtain ⟨conn,hconn⟩ := Option.isSome_iff_exists.mp hsome
    have hfree : lib.free (some p) = .ok { lib with texts := lib.texts.set p none } := by
      rw [Library.free,Library.read_live htext]
      rfl
    have hclose : wpaCliCleanup { lib with texts := lib.texts.set p none } =
        { lib.withConn none with monConn := none, attached := false,
                                 texts := lib.texts.set p none } := by
      simp only [wpaCliCleanup,wpaCliCloseConnection,hconn]
      rfl
    refine ⟨Library.withInitialized { lib.withConn none with monConn := none, attached := false,
                                                             texts := lib.texts.set p none } false,
      ?_,?_⟩
    · rw [if_pos rfl,hp,hfree,← hclose]
      rfl
    · rw [if_pos rfl]
      exact ⟨⟨rfl,rfl,rfl⟩,rfl,p,hp,List.getElem?_set_self hlt⟩

theorem Library.Left.init (h : lib.Left) (s : Surroundings D) :
    initWpaCli cfg lib s = .error .freedIfname := by
  obtain ⟨p,hp,htext⟩ := h.ifname
  have hselect : lib.selectIfname cfg s = lib := by rw [selectIfname,hp]
  simp only [initWpaCli,h.initialized_eq,hselect,hp,wpaCliOpenConnection,read_freed htext,bind,
    Except.bind,Bool.false_eq_true,if_false]

theorem Library.Left.deinit (h : lib.Left) : deinitWpaCli lib = .ok (lib,0) := by
  rw [deinitWpaCli,h.initialized_eq]
  rfl

theorem Library.Sound.execute {cmd : CString} {buf : Bytes} {r : Result D} (h : lib.Sound)
    (hr : wpaCliExecute cfg lib.wrapper cmd buf = .ok r) :
    ({ lib with wrapper := r.wrapper } : Library D).Sound := by
  obtain ⟨hinit,hconn⟩ := wpaCliExecute_same hr
  exact ⟨by rw [hinit,hconn,h.initialized],h.monConn,h.attached⟩

end Steps

section Runs
variable {cfg : BuildConfig}

/-- One of the calls is a `deinit_wpa_cli` that finds the library initialized. -/
def Deinitialized (cfg : BuildConfig) (calls : List (LibraryCall D)) : Prop :=
  ∃ before after lib, calls = before ++ .deinit :: after ∧
    Library.start.run cfg before = .ok lib ∧ lib.wrapper.initialized

/-- In every state of the run the variables agree, `ctrl_ifname` is never used while it points to
freed memory, and an `init_wpa_cli` that comes after a `deinit_wpa_cli` returns what it would have
returned at first. -/
structure KeepsLifeCycle (cfg : BuildConfig) (calls : List (LibraryCall D)) : Prop where
  sound : ∀ before after lib, calls = before ++ after →
    Library.start.run cfg before = .ok lib → lib.Sound
  ifname : ∀ before after, calls = before ++ after →
    Library.start.run cfg before ≠ .error .freedIfname
  again : ∀ before s after lib, calls = before ++ .init s :: after → Deinitialized cfg before →
    Library.start.run cfg before = .ok lib →
      (initWpaCli cfg lib s).map Prod.snd = (initWpaCli cfg Library.start s).map Prod.snd

theorem Library.run_concat (lib : Library D) (calls : List (LibraryCall D)) (call : LibraryCall D) :
    lib.run cfg (calls ++ [call]) = (lib.run cfg calls).bind (step cfg · call) := by
  rw [run,List.foldlM_append,run]
  cases h : List.foldlM (step cfg) lib calls with
  | error m => rfl
  | ok lib =>
    change (step cfg lib call).bind (fun lib => .ok lib) = step cfg lib call
    cases step cfg lib call <;> rfl

theorem deinitialized_concat {calls : List (LibraryCall D)} {call : LibraryCall D} :
    Deinitialized cfg (calls ++ [call]) ↔ Deinitialized cfg calls ∨ call = .deinit ∧
      ∃ lib, Library.start.run cfg calls = .ok lib ∧ lib.wrapper.initialized := by
  constructor
  · rintro ⟨before,after,lib,heq,hrun,hi⟩
    rcases List.eq_nil_or_concat after with rfl | ⟨after,last,rfl⟩
    · obtain ⟨rfl,hcall⟩ := List.append_inj' heq rfl
      exact .inr ⟨List.singleton_inj.mp hcall,lib,hrun,hi⟩
    · rw [List.concat_eq_append,← List.cons_append,← List.append_assoc] at heq
      obtain ⟨rfl,-⟩ := List.append_inj' heq rfl
      exact .inl ⟨before,after,lib,rfl,hrun,hi⟩
  · rintro (⟨before,after,lib,rfl,hrun,hi⟩ | ⟨rfl,lib,hrun,hi⟩)
    · exact ⟨before,after ++ [call],lib,by rw [List.append_assoc,List.cons_append],hrun,hi⟩
    · exact ⟨calls,[],lib,rfl,hrun,hi⟩

/-- How a run of calls can end. -/
def Ending (cfg : BuildConfig) (calls : List (LibraryCall D)) :
    Except Misuse (Library D) → Prop
  | .ok lib => Deinitialized cfg calls ∧ lib.Left ∨ ¬ Deinitialized cfg calls ∧ lib.Alive
  | .error .freedIfname => ∃ before s after, calls = before ++ .init s :: after ∧
      Deinitialized cfg before
  | .error (.execute _) => ¬ Deinitialized cfg calls

theorem Library.Alive.execute {lib : Library D} {cmd : CString} {buf : Bytes} {r : Result D}
    (h : lib.Alive) (hr : wpaCliExecute cfg lib.wrapper cmd buf = .ok r) :
    ({ lib with wrapper := r.wrapper } : Library D).Alive :=
  ⟨h.toSound.execute cfg hr,h.ifname,fun hi => h.named ((wpaCliExecute_same hr).1.symm.trans hi)⟩

/-- A call after the one that freed the name. -/
theorem ending_left {calls : List (LibraryCall D)} {lib : Library D} (hd : Deinitialized cfg calls)
    (hleft : lib.Left) (call : LibraryCall D) :
    Ending cfg (calls ++ [call]) (lib.step cfg call) := by
  have hd' : Deinitialized cfg (calls ++ [call]) := deinitialized_concat.mpr (.inl hd)
  cases call with
  | init s =>
    change Ending cfg _ ((initWpaCli cfg lib s).map Prod.fst)
    rw [hleft.init]
    exact ⟨calls,s,[],rfl,hd⟩
  | execute cmd buf =>
    have hquiet : wpaCliExecute cfg lib.wrapper cmd buf = .ok ⟨lib.wrapper,-1,buf⟩ := by
      rw [wpaCliExecute,hleft.initialized_eq]
      rfl
    simp only [Library.step,hquiet]
    exact .inl ⟨hd',hleft⟩
  | deinit =>
    change Ending cfg _ ((deinitWpaCli lib).map Prod.fst)
    rw [hleft.deinit]
    exact .inl ⟨hd',hleft⟩

/-- A call while the name is live. -/
theorem ending_alive {calls : List (LibraryCall D)} {lib : Library D}
    (hrun : Library.start.run cfg calls = .ok lib) (hd : ¬ Deinitialized cfg calls)
    (halive : lib.Alive) (call : LibraryCall D) :
    Ending cfg (calls ++ [call]) (lib.step cfg call) := by
  have hconcat : Deinitialized cfg (calls ++ [call]) ↔
      call = .deinit ∧ lib.wrapper.initialized := by
    rw [deinitialized_concat,hrun]
    refine (or_iff_right hd).trans (and_congr_right fun _ => ?_)
    exact ⟨fun ⟨lib',hlib,hi⟩ => by cases hlib; exact hi,fun hi => ⟨lib,rfl,hi⟩⟩
  cases call with
  | init s =>
    obtain ⟨lib',res,hinit,halive'⟩ := initWpaCli_alive cfg halive s
    change Ending cfg _ ((initWpaCli cfg lib s).map Prod.fst)
    rw [hinit]
    exact .inr ⟨by rw [hconcat]; simp,halive'⟩
  | execute cmd buf =>
    have hd' : ¬ Deinitialized cfg (calls ++ [.execute cmd buf]) := by rw [hconcat]; simp
    cases hr : wpaCliExecute cfg lib.wrapper cmd buf with
    | error fault =>
      simp only [Library.step,hr]
      exact hd'
    | ok r =>
      simp only [Library.step,hr]
      exact .inr ⟨hd',halive.execute hr⟩
  | deinit =>
    obtain ⟨lib',hdeinit,hlib'⟩ := deinitWpaCli_alive halive
    change Ending cfg _ ((deinitWpaCli lib).map Prod.fst)
    rw [hdeinit]
    cases hi : lib.wrapper.initialized with
    | true =>
      rw [hi,if_pos rfl] at hlib'
      exact .inl ⟨hconcat.mpr ⟨rfl,hi⟩,hlib'⟩
    | false =>
      rw [hi,if_neg (by decide)] at hlib'
      exact .inr ⟨by rw [hconcat]; simp [hi],hlib'⟩

/-- One more call. -/
theorem ending_concat {calls : List (LibraryCall D)} {call : LibraryCall D}
    (h : Ending cfg calls (Library.start.run cfg calls)) :
    Ending cfg (calls ++ [call]) (Library.start.run cfg (calls ++ [call])) := by
  rw [Library.run_concat]
  cases hrun : Library.start.run cfg calls with
  | error m =>
    rw [hrun] at h
    cases m with
    | execute fault =>
      refine fun hd => (deinitialized_concat.mp hd).elim h ?_
      rintro ⟨-,lib,hlib,-⟩
      rw [hrun] at hlib
      cases hlib
    | freedIfname =>
      obtain ⟨before,s,after,rfl,hd⟩ := h
      exact ⟨before,s,after ++ [call],by rw [List.append_assoc,List.cons_append],hd⟩
  | ok lib =>
    rw [hrun] at h
    rcases h with ⟨hd,hleft⟩ | ⟨hd,halive⟩
    · exact ending_left hd hleft call
    · exact ending_alive hrun hd halive call

theorem run_ending (cfg : BuildConfig) (calls : List (LibraryCall D)) :
    Ending cfg calls (Library.start.run cfg calls) := by
  induction calls using List.reverseRecOn with
  | nil =>
    refine .inr ⟨?_,Library.start_alive⟩
    rintro ⟨before,after,lib,heq,-⟩
    cases before <;> cases heq
  | append_singleton calls call ih => exact ending_concat ih

/-- The life cycle is kept exactly by the runs that never initialize the library again. -/
theorem keepsLifeCycle_iff (cfg : BuildConfig) (calls : List (LibraryCall D)) :
    KeepsLifeCycle cfg calls ↔
      ∀ before s after, calls = before ++ .init s :: after → ¬ Deinitialized cfg before := by
  constructor
  · intro h before s after heq hd
    have hend := run_ending cfg before
    cases hrun : Library.start.run cfg before with
    | error m =>
      rw [hrun] at hend
      cases m with
      | execute fault => exact hend hd
      | freedIfname => exact h.ifname before _ heq hrun
    | ok lib =>
      rw [hrun] at hend
      rcases hend with ⟨-,hleft⟩ | ⟨hd',-⟩
      · refine h.ifname (before ++ [.init s]) after (by rw [heq]; simp) ?_
        rw [Library.run_concat,hrun]
        change (initWpaCli cfg lib s).map Prod.fst = _
        rw [hleft.init]
        rfl
      · exact hd' hd
  · intro h
    refine ⟨fun before after lib heq hrun => ?_,fun before after heq hrun => ?_,
      fun before s after lib heq hd _ => absurd hd (h before s after heq)⟩
    · have hend := run_ending cfg before
      rw [hrun] at hend
      rcases hend with ⟨-,hleft⟩ | ⟨-,halive⟩
      · exact hleft.toSound
      · exact halive.toSound
    · have hend := run_ending cfg before
      rw [hrun] at hend
      obtain ⟨before',s,after',rfl,hd⟩ := hend
      exact h before' s (after' ++ after) (by rw [heq]; simp) hd

/-- An interface that is always found, and a daemon that listens. -/
def available : Surroundings anyDaemon :=
  ⟨some (ascii "wlan0"),true,true,true,fun _ => some (freshConn ()),fun _ => none,false⟩

theorem keepsLifeCycle_again :
    ¬ KeepsLifeCycle (fun _ => false) [.init available,.deinit,.init available] :=
  fun h => h.ifname _ [] (List.append_nil _).symm rfl

end Runs

end WpaCliWrapper
