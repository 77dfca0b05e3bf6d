import WpaCliWrapper.Wrapper.Execute

/-! The commands that forward their arguments: which words of the command reach the daemon. -/
namespace WpaCliWrapper
open CText Exchange

/-- The request name and the least number of arguments of a forwarding command. -/
def HandlerWithResults.forward : HandlerWithResults → Option (Bytes × ℕ)
  | .scan => some (ascii "SCAN",0)
  | .selectNetwork => some (ascii "SELECT_NETWORK",1)
  | .setNetwork => some (ascii "SET_NETWORK",3)
  | .removeNetwork => some (ascii "REMOVE_NETWORK",1)
  | .enableNetwork => some (ascii "ENABLE_NETWORK",1)
  | .disableNetwork => some (ascii "DISABLE_NETWORK",1)
  | _ => none

/-- The words of a complete request. -/
def requestWords (ifname : Option Bytes) (name : Bytes) (args : List Bytes) : List Bytes :=
  (ifname.map (ascii "IFNAME=" ++ ·)).toList ++ name :: args

/-- Either a request with exactly these words was sent, or none was and the result is negative;
the hidden `LIST_NETWORKS` does not count. -/
def NoSilentLoss (cfg : BuildConfig) (w : Wrapper anyDaemon) (cmd : CString)
    (expected : List Bytes) (buf : Bytes) : Prop :=
  ∃ r hidden, wpaCliExecute cfg w cmd buf = .ok r ∧ (∀ q ∈ hidden, q = ascii "LIST_NETWORKS") ∧
    ((∃ q, r.wrapper.sent = w.sent ++ q :: hidden ∧ words isBlank q = expected) ∨
      r.wrapper.sent = w.sent ++ hidden ∧ r.ret < 0)

/-- The command fits all three limits on its way, or nothing can be sent for it. -/
def FitsLimits (w : Wrapper anyDaemon) (cmd : CString) (n : ℕ) (h : HandlerWithResults)
    (ifname : Option Bytes) (request : Bytes) (minArgs : ℕ) (args : List Bytes) : Prop :=
  w.initialized = false ∨
    cmd.bytes.length < 1024 ∧ ¬ Overfills kMaxArgs cmd.bytes ∧ ¬ (h = .setNetwork ∧ args = []) ∧
    (w.ctrlConn = none ∨ args.length < minArgs ∨
      (words isBlank cmd.bytes).length ≤ kMaxArgs ∧
        ∀ name, ifname = some name → (ifnameText name (request ++ spaced 32 args)).length < n)

/-- The line names a forwarding command, with these arguments and this interface. -/
structure Forwards (cfg : BuildConfig) (line : Bytes) (h : HandlerWithResults)
    (ifname : Option Bytes) (request : Bytes) (minArgs : ℕ) (args : List Bytes) : Prop where
  selected : ∃ name row, stripIfname (words isBlank line) = (ifname,name :: args) ∧
    selectCommand cfg name = .found row ∧ row.handlerWithResults = h
  forward : h.forward = some (request,minArgs)

theorem forward_name {h : HandlerWithResults} {request : Bytes} {minArgs : ℕ}
    (hf : h.forward = some (request,minArgs)) :
    IsWord isBlank request ∧ request.length < 16 ∧ request.head? ≠ some 76 := by
  cases h <;> simp only [HandlerWithResults.forward,Option.some.injEq,Prod.mk.injEq,
    reduceCtorEq] at hf <;> obtain ⟨rfl,rfl⟩ := hf <;>
    exact ⟨by decide,by decide,by decide⟩

/-- A forwarding handler asks for its complete request as soon as it has enough arguments. -/
theorem forward_plan {h : HandlerWithResults} {request : Bytes} {minArgs : ℕ}
    (hf : h.forward = some (request,minArgs)) (cfg : BuildConfig) {args : List Bytes}
    (hl : (request ++ spaced 32 args).length < 4096) :
    (minArgs ≤ args.length ∧ h.plan cfg args = .ask (request ++ spaced 32 args)) ∨
      args.length < minArgs ∧ ∃ messages code, h.plan cfg args = .quiet messages code ∧
        (code < 0 ∨ code = 0 ∧ h = .setNetwork ∧ args = []) := by
  have hcmd : ∀ m, (m ≤ args.length ∧
      cmdPlan request m args = .ask (request ++ spaced 32 args)) ∨
      args.length < m ∧ cmdPlan request m args = .quiet [invalidCommand request m] (-1) := by
    intro m
    unfold cmdPlan cmdText
    by_cases hm : args.length < m
    · simp [hm]
    · rw [if_neg hm,writeCmd_eq,if_pos hl]
      exact .inl ⟨by omega,rfl⟩
  have hquiet : ∀ m, (m ≤ args.length ∧ cmdPlan request m args = .ask (request ++ spaced 32 args)) ∨
      args.length < m ∧ ∃ messages code, cmdPlan request m args = .quiet messages code ∧
        (code < 0 ∨ code = 0 ∧ h = .setNetwork ∧ args = []) := by
    intro m
    rcases hcmd m with h | ⟨hm,hp⟩
    · exact .inl h
    · exact .inr ⟨hm,_,_,hp,.inl (by decide)⟩
  cases h <;> simp only [HandlerWithResults.forward,Option.some.injEq,Prod.mk.injEq,
    reduceCtorEq] at hf <;> obtain ⟨rfl,rfl⟩ := hf
  case setNetwork =>
    have hplan : HandlerWithResults.setNetwork.plan cfg args =
        if args.length = 0 then .quiet [networkVariables] 0
        else if args.length < 3 then .quiet [setNetworkUsage] (-1)
        else cmdPlan (ascii "SET_NETWORK") 3 args := rfl
    rw [hplan]
    by_cases h0 : args.length = 0
    · rw [if_pos h0]
      exact .inr ⟨by omega,_,_,rfl,.inr ⟨rfl,rfl,List.length_eq_zero_iff.mp h0⟩⟩
    · by_cases h3 : args.length < 3
      · rw [if_neg h0,if_pos h3]
        exact .inr ⟨h3,_,_,rfl,.inl (by decide)⟩
      · rw [if_neg h0,if_neg h3]
        exact hquiet 3
  all_goals exact hquiet _

/-- Cutting the list of words cuts the arguments and nothing else. -/
theorem stripIfname_take {ws : List Bytes} {ifname : Option Bytes} {name : Bytes}
    {args : List Bytes} (h : stripIfname ws = (ifname,name :: args)) :
    ∃ args', stripIfname (ws.take kMaxArgs) = (ifname,name :: args') ∧ args' <+: args ∧
      (ws.length ≤ kMaxArgs → args' = args) ∧
      (kMaxArgs < ws.length → args'.length < args.length ∧ 14 ≤ args'.length) := by
  unfold kMaxArgs
  match ws with
  | [] => simp [stripIfname] at h
  | [first] =>
    simp only [stripIfname,Prod.mk.injEq,List.cons.injEq] at h
    obtain ⟨rfl,rfl,rfl⟩ := h
    exact ⟨[],rfl,List.prefix_rfl,fun _ => rfl,by simp⟩
  | first :: second :: rest =>
    have htake : (first :: second :: rest).take 16 = first :: second :: rest.take 14 := rfl
    rw [htake]
    simp only [stripIfname] at h ⊢
    by_cases hp : hasPrefixCase first (ascii "IFNAME=")
    · rw [if_pos hp] at h ⊢
      simp only [Prod.mk.injEq,List.cons.injEq] at h
      obtain ⟨rfl,rfl,rfl⟩ := h
      refine ⟨rest.take 14,rfl,List.take_prefix 14 rest,fun hl => ?_,fun hl => ?_⟩
      · exact List.take_of_length_le (by simp at hl; omega)
      · simp only [List.length_cons,List.length_take] at hl ⊢
        omega
    · rw [if_neg hp] at h ⊢
      simp only [Prod.mk.injEq,List.cons.injEq] at h
      obtain ⟨rfl,rfl,rfl⟩ := h
      refine ⟨second :: rest.take 14,rfl,?_,fun hl => ?_,fun hl => ?_⟩
      · exact List.cons_prefix_cons.mpr ⟨rfl,List.take_prefix 14 rest⟩
      · rw [List.take_of_length_le (by simp at hl; omega)]
      · simp only [List.length_cons,List.length_take] at hl ⊢
        omega

/-- The parts of a line of words are words themselves. -/
theorem stripIfname_words {line : Bytes} {ifname : Option Bytes} {name : Bytes}
    {args : List Bytes} (h : stripIfname (words isBlank line) = (ifname,name :: args)) :
    (∀ v, ifname = some v → ∀ x ∈ v, isBlank x = false) ∧ (∀ a ∈ args, IsWord isBlank a) ∧
      args.Sublist (words isBlank line) := by
  have hw : ∀ v ∈ words isBlank line, IsWord isBlank v := fun v hv => isWord_of_mem_words hv
  generalize words isBlank line = ws at *
  match ws with
  | [] => simp [stripIfname] at h
  | [first] =>
    simp only [stripIfname,Prod.mk.injEq,List.cons.injEq] at h
    obtain ⟨rfl,rfl,rfl⟩ := h
    exact ⟨by simp,by simp,by simp⟩
  | first :: second :: rest =>
    simp only [stripIfname] at h
    split at h
    · cases h
      refine ⟨?_,fun a ha => hw a (by simp [ha]),by simp⟩
      rintro v ⟨⟩ x hx
      exact (hw first (by simp)).2 x (List.mem_of_mem_drop hx)
    · cases h
      exact ⟨by simp,fun a ha => hw a (by rcases List.mem_cons.mp ha with rfl | ha <;> simp [*]),by simp⟩

section Texts
variable {request : Bytes} {args : List Bytes} (hr : IsWord isBlank request)
  (ha : ∀ a ∈ args, IsWord isBlank a)
include hr ha

theorem words_text : words isBlank (request ++ spaced 32 args) = request :: args := by
  rw [words_append_spaced (by decide),words_of_word hr,flatMap_words ha]
  rfl

theorem endsInWord_text (pre : Bytes) : EndsInWord (pre ++ (request ++ spaced 32 args)) := by
  rcases List.eq_nil_or_concat args with rfl | ⟨init,last,rfl⟩
  · rw [spaced_nil,List.append_nil]
    exact endsInWord_word pre hr
  · rw [List.concat_eq_append,spaced_append,spaced_cons,spaced_nil,List.append_nil]
    have hl := endsInWord_word (pre ++ (request ++ (spaced 32 init ++ [32])))
      (ha last (by simp))
    simpa using hl

/-- The words of the complete datagram. -/
theorem words_wanted {c : Command} (hif : ∀ v, c.ifname = some v → ∀ x ∈ v, isBlank x = false) :
    words isBlank (c.wanted (request ++ spaced 32 args)) = requestWords c.ifname request args := by
  unfold Command.wanted requestWords
  cases hn : c.ifname with
  | none => exact words_text hr ha
  | some v =>
    have hv : IsWord isBlank (ascii "IFNAME=" ++ v) := by
      refine ⟨by simp [ascii],fun x hx => ?_⟩
      rcases List.mem_append.mp hx with hx | hx
      · exact (show IsWord isBlank (ascii "IFNAME=") by decide).2 x hx
      · exact hif v hn x hx
    have ht : ifnameText v (request ++ spaced 32 args) =
        (ascii "IFNAME=" ++ v) ++ 32 :: (request ++ spaced 32 args) := by simp [ifnameText]
    simp only [ht,words_word_cons hv (show isBlank 32 by decide),words_text hr ha]
    rfl

theorem endsInWord_wanted (c : Command) : EndsInWord (c.wanted (request ++ spaced 32 args)) := by
  unfold Command.wanted
  cases c.ifname with
  | none => exact endsInWord_text hr ha []
  | some v =>
    have h := endsInWord_text hr ha (ascii "IFNAME=" ++ (v ++ [32]))
    simpa [ifnameText] using h

end Texts

section Line
variable {cfg : BuildConfig} {w : Wrapper anyDaemon} {cmd : CString} {n : ℕ}
  {h : HandlerWithResults} {ifname : Option Bytes} {request : Bytes} {minArgs : ℕ}
  {args : List Bytes} (hf : Forwards cfg cmd.bytes h ifname request minArgs args)
include hf

/-- The command that the first sixteen words of the line stand for. -/
theorem Forwards.command : ∃ args',
    commandOf cfg (lineWords cmd.bytes) = ⟨ifname,h.plan cfg args',h.updates⟩ ∧ args' <+: args ∧
      ((words isBlank cmd.bytes).length ≤ kMaxArgs → args' = args) ∧
      (kMaxArgs < (words isBlank cmd.bytes).length →
        args'.length < args.length ∧ 14 ≤ args'.length) := by
  obtain ⟨name,row,hw,hs,hh⟩ := hf.selected
  obtain ⟨args',hw',hpre,hle,hgt⟩ := stripIfname_take hw
  refine ⟨args',?_,hpre,hle,hgt⟩
  simp only [commandOf,lineWords,hw',hs,hh]

/-- The request never outgrows the buffer of `write_cmd`. -/
theorem Forwards.length_text (hl : cmd.bytes.length < 1024) {args' : List Bytes}
    (hpre : args' <+: args) : (request ++ spaced 32 args').length < 4096 := by
  obtain ⟨name,row,hw,-,-⟩ := hf.selected
  obtain ⟨-,-,hsub⟩ := stripIfname_words hw
  have h1 := length_spaced_sublist 32 (hpre.sublist.trans hsub)
  have h2 := length_spaced_words (p := isBlank) 32 cmd.bytes
  have h3 := (forward_name hf.forward).2.1
  rw [List.length_append]
  omega

theorem Forwards.words_wanted (c : Command) (hc : c.ifname = ifname) {args' : List Bytes}
    (hpre : args' <+: args) :
    words isBlank (c.wanted (request ++ spaced 32 args')) = requestWords ifname request args' := by
  obtain ⟨name,row,hw,-,-⟩ := hf.selected
  obtain ⟨hif,ha,-⟩ := stripIfname_words hw
  subst hc
  exact WpaCliWrapper.words_wanted (forward_name hf.forward).1
    (fun a h => ha a (hpre.subset h)) hif

/-- The plan of the command, whose code is negative when it sends nothing. -/
theorem Forwards.plan_cases (hl : cmd.bytes.length < 1024) (hset : ¬ (h = .setNetwork ∧ args = []))
    {args' : List Bytes} (hpre : args' <+: args)
    (hle : (words isBlank cmd.bytes).length ≤ kMaxArgs → args' = args)
    (hgt : kMaxArgs < (words isBlank cmd.bytes).length → 14 ≤ args'.length) :
    (minArgs ≤ args'.length ∧ h.plan cfg args' = .ask (request ++ spaced 32 args')) ∨
      args'.length < minArgs ∧ ∃ messages code, h.plan cfg args' = .quiet messages code ∧
        code < 0 := by
  rcases forward_plan hf.forward cfg (hf.length_text hl hpre) with h | ⟨hm,messages,code,hp,hc⟩
  · exact .inl h
  · refine .inr ⟨hm,messages,code,hp,?_⟩
    rcases hc with hc | ⟨-,hs,h0⟩
    · exact hc
    · rcases Nat.lt_or_ge kMaxArgs (words isBlank cmd.bytes).length with hlt | hge
      · have := hgt hlt
        simp [h0] at this
      · exact absurd ⟨hs,hle hge ▸ h0⟩ hset

theorem lossless_of_fits (hs : ∀ conn, w.ctrlConn = some conn → Sized conn) {buf : Bytes}
    (hn : 0 < buf.length) (hfit : FitsLimits w cmd buf.length h ifname request minArgs args) :
    NoSilentLoss cfg w cmd (requestWords ifname request args) buf := by
  unfold NoSilentLoss
  cases hi : w.initialized with
  | false =>
    refine ⟨⟨w,-1,buf⟩,[],?_,by simp,.inr ⟨by simp,by simp⟩⟩
    unfold wpaCliExecute
    rw [if_pos (by simp [hi])]
  | true =>
    obtain ⟨hl,ho,hset,hfit⟩ := hfit.resolve_left (by simp [hi])
    rw [wpaCliExecute_eq cfg hi hl ho]
    obtain ⟨args',hc,hpre,hle,hgt⟩ := hf.command
    have hplan := hf.plan_cases hl hset hpre hle (fun h => (hgt h).2)
    rw [hc]
    cases hconn : w.ctrlConn with
    | none =>
      obtain ⟨networks,out,hrun⟩ :=
        (⟨ifname,h.plan cfg args',h.updates⟩ : Command).run_disconnected hconn buf
      refine ⟨_,[],hrun,by simp,.inr ⟨by simp [Wrapper.sent,hconn],?_⟩⟩
      rcases hplan with ⟨-,hp⟩ | ⟨-,messages,code,hp,hneg⟩
      · simp [hp,Plan.code,code]
      · simpa [hp,Plan.code] using hneg
    | some conn =>
      obtain ⟨r,networks,out,hrun,hw,hret,-⟩ :=
        (⟨ifname,h.plan cfg args',h.updates⟩ : Command).run_connected hconn (hs conn hconn) hn
      generalize hcdef : (⟨ifname,h.plan cfg args',h.updates⟩ : Command) = c at *
      have hcp : c.plan = h.plan cfg args' := by rw [← hcdef]
      have hsent : r.wrapper.sent = (c.finish (c.first buf.length conn).1).sent := by
        rw [hw]
        rfl
      have hsent₀ : w.sent = conn.sent := by simp [Wrapper.sent,hconn]
      obtain ⟨hidden,hfin,hlist⟩ := c.finish_sent (c.first buf.length conn).1
      refine ⟨r,hidden,hrun,hlist,?_⟩
      rw [hsent,hsent₀,hfin]
      rcases hplan with ⟨hm,hp⟩ | ⟨hm,messages,code,hp,hneg⟩
      · rw [hp] at hcp
        have hmin : minArgs ≤ args.length := hm.trans hpre.length_le
        rcases hfit with hnone | hfew | ⟨hwords,hfits⟩
        · rw [hconn] at hnone
          cases hnone
        · omega
        · obtain rfl := hle hwords
          have hq : c.request buf.length (request ++ spaced 32 args') = _ :=
            c.request_eq_wanted (by rw [← hcdef]; exact hfits)
          have hf1 := (Command.first_sent hcp buf.length conn).2
          split at hf1
          · refine .inr ⟨by rw [hf1.1],?_⟩
            rw [hret,hcp,hf1.2]
            simp [Plan.code,code]
          · refine .inl ⟨c.wanted (request ++ spaced 32 args'),by rw [hf1,hq]; simp,?_⟩
            exact hf.words_wanted c (by rw [← hcdef]) hpre
      · rw [hp] at hcp
        refine .inr ⟨by simp only [Command.first,hcp],?_⟩
        rw [hret,hcp]
        exact hneg

/-- A datagram that is sent although it is not the complete request. -/
theorem Forwards.request_ne (c : Command) (n : ℕ) (args' : List Bytes) :
    c.request n (request ++ spaced 32 args') ≠ ascii "LIST_NETWORKS" := by
  have hlist : (ascii "LIST_NETWORKS").head? = some 76 := by decide
  intro h
  have hhead := congrArg List.head? h
  rw [hlist] at hhead
  obtain ⟨hword,-,h76⟩ := forward_name hf.forward
  unfold Command.request at hhead
  cases hn : c.ifname with
  | none =>
    obtain ⟨x,request,rfl⟩ := List.exists_cons_of_ne_nil hword.1
    simp only [hn] at hhead
    exact h76 hhead
  | some v =>
    simp only [hn,clip,ifnameText] at hhead
    have hi : ascii "IFNAME=" = 73 :: ascii "FNAME=" := by decide
    rw [hi,List.head?_take] at hhead
    split at hhead <;> simp at hhead

/-- Only the complete request has all the words. -/
theorem Forwards.complete_of_words (c : Command) (hc : c.ifname = ifname) (n : ℕ)
    {args' : List Bytes} (hpre : args' <+: args)
    (hle : (words isBlank cmd.bytes).length ≤ kMaxArgs → args' = args)
    (hgt : kMaxArgs < (words isBlank cmd.bytes).length → args'.length < args.length)
    (hw : words isBlank (c.request n (request ++ spaced 32 args')) =
      requestWords ifname request args) :
    (words isBlank cmd.bytes).length ≤ kMaxArgs ∧
      ∀ name, ifname = some name → (ifnameText name (request ++ spaced 32 args)).length < n := by
  obtain ⟨name₀,row,hline,-,-⟩ := hf.selected
  obtain ⟨-,ha,-⟩ := stripIfname_words hline
  have hword := (forward_name hf.forward).1
  have hall := hf.words_wanted c hc hpre
  -- compare the numbers of bytes that are not blanks
  have hcut : (words isBlank (c.request n (request ++ spaced 32 args'))).flatten.length ≤
      (words isBlank (c.wanted (request ++ spaced 32 args'))).flatten.length := by
    unfold Command.request Command.wanted
    cases c.ifname with
    | none => exact le_refl _
    | some v => exact length_flatten_words_take_le _ _
  have hwords : (words isBlank cmd.bytes).length ≤ kMaxArgs := by
    by_contra hlt
    have hlt := hgt (by omega)
    obtain ⟨extra,rfl⟩ := hpre
    obtain ⟨a,extra,rfl⟩ := List.exists_cons_of_ne_nil
      (show extra ≠ [] by rintro rfl; simp at hlt)
    have hpos := List.length_pos_iff.mpr (ha a (by simp)).1
    rw [hw,hall] at hcut
    simp only [requestWords,List.flatten_append,List.flatten_cons,List.length_append] at hcut
    omega
  refine ⟨hwords,fun name hname => ?_⟩
  obtain rfl := hle hwords
  by_contra hlong
  obtain ⟨x,hx,hb⟩ := endsInWord_wanted hword ha c
  have hwanted : c.wanted (request ++ spaced 32 args') =
      ifnameText name (request ++ spaced 32 args') := by simp only [Command.wanted,hc,hname]
  have hpos : 0 < (ifnameText name (request ++ spaced 32 args')).length := by
    simp [ifnameText]
  have hlt := length_flatten_words_take hx hb (n := n-1) (by rw [hwanted]; omega)
  have hreq : c.request n (request ++ spaced 32 args') =
      (c.wanted (request ++ spaced 32 args')).take (n-1) := by
    rw [hwanted]
    simp only [Command.request,hc,hname,clip]
  rw [← hreq,hw,hall] at hlt
  omega

omit hf in
/-- A call that stays within its buffers was given a short enough line. -/
theorem NoSilentLoss.inside {words : List Bytes} {buf : Bytes} (hi : w.initialized = true)
    (hloss : NoSilentLoss cfg w cmd words buf) :
    cmd.bytes.length < 1024 ∧ ¬ Overfills kMaxArgs cmd.bytes := by
  by_contra hbad
  obtain ⟨r,hidden,hrun,-⟩ := hloss
  have hbad : 1024 ≤ cmd.bytes.length ∨ Overfills kMaxArgs cmd.bytes := by
    by_contra hno
    exact hbad ⟨by omega,fun ho => hno (.inr ho)⟩
  rw [wpaCliExecute_fault cfg hi hbad buf] at hrun
  cases hrun

/-- `set_network` without arguments prints the variables and reports success. -/
theorem NoSilentLoss.not_listed {words : List Bytes} {buf : Bytes} (hi : w.initialized = true)
    (hloss : NoSilentLoss cfg w cmd words buf) : ¬ (h = .setNetwork ∧ args = []) := by
  rintro ⟨rfl,rfl⟩
  obtain ⟨hl,ho⟩ := hloss.inside hi
  obtain ⟨args',hc,hpre,-⟩ := hf.command
  obtain rfl := List.prefix_nil.mp hpre
  obtain ⟨r,hidden,hrun,-,hsent⟩ := hloss
  have hplan : HandlerWithResults.setNetwork.plan cfg [] = .quiet [networkVariables] 0 := rfl
  have hupd : HandlerWithResults.setNetwork.updates = false := rfl
  rw [wpaCliExecute_eq cfg hi hl ho,hc,hplan,hupd] at hrun
  cases hrun
  rcases hsent with ⟨q,hq,-⟩ | ⟨-,hneg⟩
  · have hlen := congrArg List.length hq
    simp [Wrapper.sent,Plan.run] at hlen
  · simp [Plan.run] at hneg

/-- With enough arguments a request is sent, whatever the tokenizer kept of them. -/
theorem Forwards.plan_ask (hl : cmd.bytes.length < 1024) (hset : ¬ (h = .setNetwork ∧ args = []))
    (hmany : minArgs ≤ args.length) {args' : List Bytes} (hpre : args' <+: args)
    (hle : (words isBlank cmd.bytes).length ≤ kMaxArgs → args' = args)
    (hgt : kMaxArgs < (words isBlank cmd.bytes).length → 14 ≤ args'.length) :
    h.plan cfg args' = .ask (request ++ spaced 32 args') := by
  rcases hf.plan_cases hl hset hpre hle hgt with ⟨-,hp⟩ | ⟨hm,-⟩
  · exact hp
  · rcases Nat.lt_or_ge kMaxArgs (words isBlank cmd.bytes).length with hlt | hge
    · have hkept := hgt hlt
      have hmin : minArgs ≤ 3 := by
        have hforward := hf.forward
        cases h <;> simp [HandlerWithResults.forward] at hforward <;> omega
      omega
    · rw [hle hge] at hm
      omega

/-- If a request is never answered and nothing is lost, then it was complete. -/
theorem limits_of_unanswered {conn : Conn anyDaemon} (hconn : w.ctrlConn = some conn)
    (hsized : Sized conn) (hn : 1 ≤ n) (hi : w.initialized = true)
    (hmany : minArgs ≤ args.length) {buf : Bytes} (hb : buf.length = n)
    (hloss : NoSilentLoss cfg (w.withEnv [⟨[],true,[]⟩]) cmd (requestWords ifname request args)
      buf) : (words isBlank cmd.bytes).length ≤ kMaxArgs ∧
      ∀ name, ifname = some name → (ifnameText name (request ++ spaced 32 args)).length < n := by
  have hi' : (w.withEnv [⟨[],true,[]⟩]).initialized = true := hi
  obtain ⟨hl,ho⟩ := hloss.inside hi'
  have hset := hloss.not_listed hf hi'
  obtain ⟨args',hc,hpre,hle,hgt⟩ := hf.command
  have hplan := hf.plan_ask hl hset hmany hpre hle fun h => (hgt h).2
  obtain ⟨r,hidden,hrun,hlist,hsent⟩ := hloss
  rw [wpaCliExecute_eq cfg hi' hl ho,hc] at hrun
  have hconn' : (w.withEnv [⟨[],true,[]⟩]).ctrlConn =
      some { conn with env := [⟨[],true,[]⟩] } := by simp [Wrapper.withEnv,hconn]
  obtain ⟨r',networks,out,hrun',hw,-⟩ :=
    (⟨ifname,h.plan cfg args',h.updates⟩ : Command).run_connected hconn' hsized (hb.symm ▸ hn)
  rw [hrun] at hrun'
  cases hrun'
  rw [hb] at hw
  obtain ⟨henv,hfirst⟩ := Command.first_sent
    (c := ⟨ifname,h.plan cfg args',h.updates⟩) hplan n { conn with env := [⟨[],true,[]⟩] }
  have hr : r.wrapper.sent = conn.sent ++
      [Command.request ⟨ifname,h.plan cfg args',h.updates⟩ n (request ++ spaced 32 args')] := by
    rw [hw]
    simp only [Wrapper.sent,Option.elim]
    rw [Command.finish_exhausted _ henv]
    exact hfirst
  have hw₀ : (w.withEnv [⟨[],true,[]⟩]).sent = conn.sent := by
    simp only [Wrapper.sent,hconn',Option.elim]
    rfl
  rw [hr,hw₀] at hsent
  rcases hsent with ⟨q,hq,hwords⟩ | ⟨hq,-⟩
  · have hq := List.append_cancel_left hq
    simp only [List.cons.injEq] at hq
    rw [← hq.1] at hwords
    exact hf.complete_of_words _ rfl n hpre hle (fun h => (hgt h).1) hwords
  · have hq := List.append_cancel_left hq
    exact absurd (hlist _ (hq ▸ List.mem_singleton_self _))
      (hf.request_ne ⟨ifname,h.plan cfg args',h.updates⟩ n args')

theorem fits_of_lossless (hs : ∀ conn, w.ctrlConn = some conn → Sized conn) (hn : 1 ≤ n)
    (hp : ∀ env buf, buf.length = n →
      NoSilentLoss cfg (w.withEnv env) cmd (requestWords ifname request args) buf) :
    FitsLimits w cmd n h ifname request minArgs args := by
  have hb : (List.replicate n (0 : UInt8)).length = n := List.length_replicate
  cases hi : w.initialized with
  | false => exact .inl hi
  | true =>
    right
    have hquiet := hp [] _ hb
    have hi' : (w.withEnv []).initialized = true := hi
    obtain ⟨hl,ho⟩ := hquiet.inside hi'
    refine ⟨hl,ho,hquiet.not_listed hf hi',?_⟩
    cases hconn : w.ctrlConn with
    | none => exact .inl rfl
    | some conn =>
      right
      rcases Nat.lt_or_ge args.length minArgs with hfew | hmany
      · exact .inl hfew
      · exact .inr (limits_of_unanswered hf hconn (hs conn hconn) hn hi hmany hb
          (hp [⟨[],true,[]⟩] _ hb))

end Line

/-- A forwarding command loses none of its words, or sends nothing and says so, exactly when it
fits all limits on its way. -/
theorem noSilentLoss_iff (cfg : BuildConfig) (w : Wrapper anyDaemon) (cmd : CString) (n : ℕ)
    (hn : 1 ≤ n) (hs : ∀ conn, w.ctrlConn = some conn → Sized conn) (h : HandlerWithResults)
    (ifname : Option Bytes) (request : Bytes) (minArgs : ℕ) (args : List Bytes)
    (hf : Forwards cfg cmd.bytes h ifname request minArgs args) :
    (∀ env buf, buf.length = n →
        NoSilentLoss cfg (w.withEnv env) cmd (requestWords ifname request args) buf) ↔
      FitsLimits w cmd n h ifname request minArgs args := by
  refine ⟨fits_of_lossless hf hs hn,fun hfit env buf hb => ?_⟩
  subst hb
  refine lossless_of_fits hf (fun conn hc => ?_) hn ?_
  · cases hconn : w.ctrlConn with
    | none => simp [Wrapper.withEnv,hconn] at hc
    | some conn' =>
      simp only [Wrapper.withEnv,hconn,Option.map_some,Option.some.injEq] at hc
      exact hc ▸ hs conn' hconn
  · rcases hfit with hi | ⟨hl,ho,hset,hfit⟩
    · exact .inl hi
    · refine .inr ⟨hl,ho,hset,hfit.imp_left fun hnone => ?_⟩
      simp [Wrapper.withEnv,hnone]

/-- On a fresh connection `enable_network 0` keeps its argument. -/
theorem noSilentLoss_enable :
    (ascii "enable_network 0").length < 1024 ∧ ∀ env buf, buf.length = 64 →
      NoSilentLoss (fun _ => false) (Wrapper.withEnv (.connected (freshConn ())) env)
        ⟨ascii "enable_network 0",by decide⟩ [ascii "ENABLE_NETWORK",ascii "0"] buf := by
  have hf : Forwards (fun _ => false) (ascii "enable_network 0") .enableNetwork none
      (ascii "ENABLE_NETWORK") 1 [ascii "0"] :=
    ⟨⟨ascii "enable_network",_,by decide,select_enable_network _,rfl⟩,rfl⟩
  refine ⟨by decide,(noSilentLoss_iff _ (.connected (freshConn ())) ⟨ascii "enable_network 0",_⟩ 64
    (by decide) ?_ _ _ _ _ _ hf).mpr ?_⟩
  · rintro conn ⟨⟩
    exact freshConn_sized (D := anyDaemon) ()
  · exact .inr ⟨by decide,by decide,by simp,.inr (.inr ⟨by decide,by simp⟩)⟩

def longSsid : CString := ⟨ascii "set_network 0 ssid a b c d e f g h i j k l m n",by decide⟩

/-- Of seventeen words only sixteen are sent, and the daemon may even accept them. -/
theorem noSilentLoss_seventeen :
    Forwards (fun _ => false) longSsid.bytes .setNetwork none (ascii "SET_NETWORK") 3
      ((words isBlank longSsid.bytes).drop 1) ∧
    ¬ ∀ env buf, buf.length = 256 →
      NoSilentLoss (fun _ => false) (Wrapper.withEnv (.connected (freshConn ())) env) longSsid
        (requestWords none (ascii "SET_NETWORK") ((words isBlank longSsid.bytes).drop 1)) buf := by
  have hf : Forwards (fun _ => false) longSsid.bytes .setNetwork none (ascii "SET_NETWORK") 3
      ((words isBlank longSsid.bytes).drop 1) :=
    ⟨⟨ascii "set_network",_,by decide,select_set_network _,rfl⟩,rfl⟩
  refine ⟨hf,fun h => ?_⟩
  have hfit := fits_of_lossless (w := .connected (freshConn ())) hf
    (fun conn hc => by cases hc; exact freshConn_sized (D := anyDaemon) ()) (by decide) h
  rcases hfit with hi | ⟨-,-,-,hc | hfew | ⟨hwords,-⟩⟩
  · cases hi
  · cases hc
  · exact absurd hfew (by decide)
  · exact absurd hwords (by decide)

end WpaCliWrapper
