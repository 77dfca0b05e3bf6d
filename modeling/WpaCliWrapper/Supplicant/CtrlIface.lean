import WpaCliWrapper.CText.Decimal
import WpaCliWrapper.Common.WpaCtrl
import WpaCliWrapper.Supplicant.Config

/-! The control interface of the daemon: `wpa_supplicant_ctrl_iface_process` for the requests that
change the list of networks. -/
namespace WpaCliWrapper
open CText Exchange

variable {F : SsidFields}

/-- The text before the first blank and the text after it. -/
def splitBlank (cmd : Bytes) : Option (Bytes × Bytes) :=
  match cmd.dropWhile (· != 32) with
  | [] => none
  | _ :: rest => some (cmd.takeWhile (· != 32),rest)

/-- `"<network id> <variable name> <value>"`. -/
def ctrlIfaceSetNetwork (nets : Networks F) (cmd : Bytes) : Option (Networks F) := do
  let (id,rest) ← splitBlank cmd
  let (name,value) ← splitBlank rest
  let ssid ← wpaConfigGetNetwork nets (atoi id)
  return putNetwork (← updateNetwork ssid name value) nets

/-- `wpa_supplicant_enable_one_network`. -/
def enableOneNetwork (ssid : WpaSsid F) : WpaSsid F :=
  if ssid.disabled = 0 ∨ ssid.disabled = 2 then ssid else { ssid with disabled := 0 }

def disableOneNetwork (ssid : WpaSsid F) : WpaSsid F :=
  if ssid.disabled = 2 then ssid else { ssid with disabled := 1 }

/-- Both switches of a network: `"<network id>"` or `"all"`, and never for a persistent group. -/
def switchNetwork (one : WpaSsid F → WpaSsid F) (disabled : ℕ) (nets : Networks F) (cmd : Bytes) :
    Option (Networks F) :=
  if cmd = ascii "all" then some (nets.map one)
  else
    match wpaConfigGetNetwork nets (atoi cmd) with
    | none => none
    | some ssid =>
      if ssid.disabled = 2 then none else some (putNetwork { ssid with disabled := disabled } nets)

/-- The option ` no-connect` has the same effect on the network. -/
def ctrlIfaceEnableNetwork (nets : Networks F) (cmd : Bytes) : Option (Networks F) :=
  switchNetwork enableOneNetwork 0 nets cmd

def ctrlIfaceDisableNetwork (nets : Networks F) (cmd : Bytes) : Option (Networks F) :=
  switchNetwork disableOneNetwork 1 nets cmd

def ctrlIfaceRemoveNetwork (nets : Networks F) (cmd : Bytes) : Option (Networks F) :=
  if cmd = ascii "all" then some [] else wpaConfigRemoveNetwork nets (atoi cmd)

def okReply : Bytes := ascii "OK\n"
def failReply : Bytes := ascii "FAIL\n"

theorem okReply_length : okReply.length < replySize := by decide

theorem failReply_length : failReply.length < replySize := by decide

theorem nil_length_lt : ([] : Bytes).length < replySize := by decide

theorem okReply_choice : okReply.length < replySize ∧ True := ⟨okReply_length,trivial⟩

theorem nil_choice : ([] : Bytes).length < replySize ∧ True := ⟨nil_length_lt,trivial⟩

/-- The reply to `ADD_NETWORK`. -/
def idReply (id : ℤ) : Bytes := decimal id ++ [10]

/-- The network is added even if there were no room for its id in the reply. -/
def ctrlIfaceAddNetwork (nets : Networks F) : Networks F × Bytes :=
  (nets ++ [newNetwork nets],
    if (idReply (nextId nets)).length < replySize then idReply (nextId nets) else failReply)

/-- What the surroundings decide about one request: whether the daemon refuses it, with which text,
and what it reports where its answer is not modelled. -/
structure Circumstance (answers reports : Bytes → Prop) where
  refusal : Option { text : Bytes // text.length < replySize ∧ answers text }
  report : { text : Bytes // text.length < replySize ∧ reports text }

/-- A request may be refused with any text, and any text may be reported. -/
abbrev AnyCircumstance := Circumstance (fun _ => True) fun _ => True

/-- A handler that returned -1 changed nothing. -/
def answerTo (nets : Networks F) : Option (Networks F) → Networks F × Bytes
  | none => (nets,failReply)
  | some nets' => (nets',okReply)

/-- A request that is refused is not performed. Requests that disable or remove networks are not
refused, and all other requests leave the networks alone. -/
def ctrlIfaceProcess {answers reports : Bytes → Prop} (c : Circumstance answers reports) (nets : Networks F)
    (buf : Bytes) : Networks F × Bytes :=
  let refusable := fun r : Networks F × Bytes => c.refusal.elim r fun text => (nets,text.1)
  if (ascii "ENABLE_NETWORK ").isPrefixOf buf then
    refusable (answerTo nets (ctrlIfaceEnableNetwork nets (buf.drop 15)))
  else if (ascii "DISABLE_NETWORK ").isPrefixOf buf then
    answerTo nets (ctrlIfaceDisableNetwork nets (buf.drop 16))
  else if buf = ascii "ADD_NETWORK" then
    if c.refusal.isSome then (nets,failReply) else ctrlIfaceAddNetwork nets
  else if (ascii "REMOVE_NETWORK ").isPrefixOf buf then
    answerTo nets (ctrlIfaceRemoveNetwork nets (buf.drop 15))
  else if (ascii "SET_NETWORK ").isPrefixOf buf then
    refusable (answerTo nets (ctrlIfaceSetNetwork nets (buf.drop 12)))
  else (nets,c.report)

section Process
variable {answers reports : Bytes → Prop} (c : Circumstance answers reports) (nets : Networks F)

theorem process_add : ctrlIfaceProcess c nets (ascii "ADD_NETWORK") =
    if c.refusal.isSome then (nets,failReply) else ctrlIfaceAddNetwork nets := rfl

theorem process_set (cmd : Bytes) : ctrlIfaceProcess c nets (ascii "SET_NETWORK " ++ cmd) =
    c.refusal.elim (answerTo nets (ctrlIfaceSetNetwork nets cmd)) fun text => (nets,text.1) := rfl

theorem process_enable (cmd : Bytes) : ctrlIfaceProcess c nets (ascii "ENABLE_NETWORK " ++ cmd) =
    c.refusal.elim (answerTo nets (ctrlIfaceEnableNetwork nets cmd)) fun text => (nets,text.1) := rfl

theorem process_disable (cmd : Bytes) : ctrlIfaceProcess c nets (ascii "DISABLE_NETWORK " ++ cmd) =
    answerTo nets (ctrlIfaceDisableNetwork nets cmd) := rfl

theorem process_remove (cmd : Bytes) : ctrlIfaceProcess c nets (ascii "REMOVE_NETWORK " ++ cmd) =
    answerTo nets (ctrlIfaceRemoveNetwork nets cmd) := rfl

end Process

/-- Which networks a request is about. -/
inductive Target
  | all
  | id (i : ℤ)
  deriving DecidableEq

def networkArg (cmd : Bytes) : Target := if cmd = ascii "all" then .all else .id (atoi cmd)

/-- The networks that a request enables, disables, removes or changes. -/
def target (buf : Bytes) : Option Target :=
  if (ascii "ENABLE_NETWORK ").isPrefixOf buf then some (networkArg (buf.drop 15))
  else if (ascii "DISABLE_NETWORK ").isPrefixOf buf then some (networkArg (buf.drop 16))
  else if buf = ascii "ADD_NETWORK" then none
  else if (ascii "REMOVE_NETWORK ").isPrefixOf buf then some (networkArg (buf.drop 15))
  else if (ascii "SET_NETWORK ").isPrefixOf buf then
    some (.id (atoi ((buf.drop 12).takeWhile (· != 32))))
  else none

/-- What changes one network at most, and keeps the ids of all. -/
def Puts (i : ℤ) (nets : Networks F) (result : Option (Networks F)) : Prop :=
  ∀ nets', result = some nets' → ∃ ssid : WpaSsid F, ssid.id = i ∧ nets' = putNetwork ssid nets

theorem set_puts (nets : Networks F) (cmd : Bytes) :
    Puts (atoi (cmd.takeWhile (· != 32))) nets (ctrlIfaceSetNetwork nets cmd) := by
  intro nets' h
  unfold ctrlIfaceSetNetwork splitBlank at h
  cases hd : cmd.dropWhile (· != 32) with
  | nil => simp [hd] at h
  | cons c rest =>
    simp only [hd,Option.bind_eq_bind,Option.bind_some] at h
    obtain ⟨r,-,h⟩ := Option.bind_eq_some_iff.mp h
    obtain ⟨ssid,hget,h⟩ := Option.bind_eq_some_iff.mp h
    obtain ⟨ssid',hup,h⟩ := Option.bind_eq_some_iff.mp h
    cases h
    exact ⟨ssid',(updateNetwork_id hup).trans (getNetwork_mem hget).2,rfl⟩

theorem splitBlank_append {w : Bytes} (hw : 32 ∉ w) (rest : Bytes) :
    splitBlank (w ++ 32 :: rest) = some (w,rest) := by
  have hall : ∀ c ∈ w, (c != 32) = true := by
    intro c hc
    have hne : c ≠ 32 := fun he => hw (he ▸ hc)
    simpa using hne
  rw [splitBlank,List.dropWhile_append_of_pos hall,List.takeWhile_append_of_pos hall]
  simp

/-- Setting one variable of a network. -/
theorem setNetwork_eq {id name : Bytes} (hid : 32 ∉ id) (hname : 32 ∉ name) (value : Bytes)
    {nets : Networks F} {ssid : WpaSsid F} (hget : wpaConfigGetNetwork nets (atoi id) = some ssid) :
    ctrlIfaceSetNetwork nets (id ++ 32 :: (name ++ 32 :: value)) =
      (updateNetwork ssid name value).map fun ssid' => putNetwork ssid' nets := by
  unfold ctrlIfaceSetNetwork
  simp only [splitBlank_append hid,splitBlank_append hname,hget,Option.bind_eq_bind,Option.bind_some]
  cases updateNetwork ssid name value <;> rfl

theorem switch_puts (one : WpaSsid F → WpaSsid F) (disabled : ℕ) (nets : Networks F) {cmd : Bytes}
    {i : ℤ} (hc : networkArg cmd = .id i) : Puts i nets (switchNetwork one disabled nets cmd) := by
  intro nets' h
  unfold networkArg at hc
  unfold switchNetwork at h
  split at hc
  · cases hc
  · rename_i hall
    cases hc
    rw [if_neg hall] at h
    split at h
    · cases h
    · rename_i ssid hget
      split at h
      · cases h
      · cases h
        exact ⟨{ ssid with disabled := disabled },(getNetwork_mem hget).2,rfl⟩

theorem Puts.front {i : ℤ} {before nets : Networks F} {result : Option (Networks F)}
    (h : Puts i nets result) (hb : before <+: nets) (hi : i ∉ before.ids) :
    before <+: (answerTo nets result).1 := by
  cases result with
  | none => exact hb
  | some nets' =>
    obtain ⟨ssid,rfl,rfl⟩ := h nets' rfl
    exact putNetwork_front hb hi

theorem Puts.ids {i : ℤ} {nets : Networks F} {result : Option (Networks F)}
    (h : Puts i nets result) : (answerTo nets result).1.ids = nets.ids := by
  cases result with
  | none => rfl
  | some nets' =>
    obtain ⟨ssid,-,rfl⟩ := h nets' rfl
    exact putNetwork_ids ssid nets

theorem remove_of_id {nets : Networks F} {cmd : Bytes} {i : ℤ} (hc : networkArg cmd = .id i) :
    ctrlIfaceRemoveNetwork nets cmd = wpaConfigRemoveNetwork nets i := by
  unfold networkArg at hc
  unfold ctrlIfaceRemoveNetwork
  split at hc
  · cases hc
  · rename_i hall
    cases hc
    rw [if_neg hall]

theorem remove_ids (nets : Networks F) {cmd : Bytes} {i : ℤ} (hc : networkArg cmd = .id i) :
    (answerTo nets (ctrlIfaceRemoveNetwork nets cmd)).1.ids = nets.ids.erase i := by
  rw [remove_of_id hc]
  cases hr : wpaConfigRemoveNetwork nets i with
  | none =>
    have hn := getNetwork_none.mp (Option.map_eq_none_iff.mp hr)
    exact (List.erase_of_not_mem hn).symm
  | some nets' => exact removeNetwork_ids hr

/-- The requests of the control interface that are about networks, and all others. -/
theorem request_cases (buf : Bytes) :
    (∃ cmd, buf = ascii "ENABLE_NETWORK " ++ cmd) ∨ (∃ cmd, buf = ascii "DISABLE_NETWORK " ++ cmd) ∨
      buf = ascii "ADD_NETWORK" ∨ (∃ cmd, buf = ascii "REMOVE_NETWORK " ++ cmd) ∨
      (∃ cmd, buf = ascii "SET_NETWORK " ++ cmd) ∨
      target buf = none ∧ ∀ {answers reports : Bytes → Prop} (c : Circumstance answers reports) (nets : Networks F),
        ctrlIfaceProcess c nets buf = (nets,c.report.1) := by
  have hpre : ∀ {pre : Bytes}, pre.isPrefixOf buf → ∃ cmd, buf = pre ++ cmd := by
    intro pre h
    obtain ⟨cmd,hcmd⟩ := List.isPrefixOf_iff_prefix.mp h
    exact ⟨cmd,hcmd.symm⟩
  by_cases h1 : (ascii "ENABLE_NETWORK ").isPrefixOf buf
  · exact .inl (hpre h1)
  by_cases h2 : (ascii "DISABLE_NETWORK ").isPrefixOf buf
  · exact .inr (.inl (hpre h2))
  by_cases h3 : buf = ascii "ADD_NETWORK"
  · exact .inr (.inr (.inl h3))
  by_cases h4 : (ascii "REMOVE_NETWORK ").isPrefixOf buf
  · exact .inr (.inr (.inr (.inl (hpre h4))))
  by_cases h5 : (ascii "SET_NETWORK ").isPrefixOf buf
  · exact .inr (.inr (.inr (.inr (.inl (hpre h5)))))
  refine .inr (.inr (.inr (.inr (.inr ⟨?_,fun c nets => ?_⟩))))
  · rw [target,if_neg h1,if_neg h2,if_neg h3,if_neg h4,if_neg h5]
  · simp only [ctrlIfaceProcess,h1,h2,h3,h4,h5,Bool.false_eq_true,if_false]

theorem refused_cases {answers reports : Bytes → Prop} (c : Circumstance answers reports) {P : Networks F → Prop}
    {nets : Networks F} {r : Networks F × Bytes} (h0 : P nets) (h : P r.1) :
    P (c.refusal.elim r fun text => (nets,text.1)).1 := by
  cases c.refusal with
  | none => exact h
  | some text => exact h0

section Effects
variable {answers reports : Bytes → Prop} (c : Circumstance answers reports)

/-- Only `ADD_NETWORK` and `REMOVE_NETWORK` change the list of ids. -/
theorem process_ids {nets : Networks F} {buf : Bytes} (ha : buf ≠ ascii "ADD_NETWORK")
    (hr : ∀ cmd, buf ≠ ascii "REMOVE_NETWORK " ++ cmd)
    (ht : ∀ t, target buf = some t → ∃ i, t = .id i) :
    (ctrlIfaceProcess c nets buf).1.ids = nets.ids := by
  rcases request_cases (F := F) buf with
    ⟨cmd,rfl⟩ | ⟨cmd,rfl⟩ | rfl | ⟨cmd,rfl⟩ | ⟨cmd,rfl⟩ | ⟨-,hrest⟩
  · obtain ⟨i,hi⟩ := ht _ rfl
    rw [process_enable]
    exact refused_cases c (P := (Networks.ids · = nets.ids)) rfl (switch_puts _ _ nets hi).ids
  · obtain ⟨i,hi⟩ := ht _ rfl
    rw [process_disable]
    exact (switch_puts _ _ nets hi).ids
  · exact absurd rfl ha
  · exact absurd rfl (hr cmd)
  · rw [process_set]
    exact refused_cases c (P := (Networks.ids · = nets.ids)) rfl (set_puts nets cmd).ids
  · rw [hrest]

end Effects

theorem idReply_length {id : ℤ} (h : -2^31 ≤ id ∧ id < 2^31) : (idReply id).length ≤ 12 := by
  have hd := decimal_length h
  rw [idReply,List.length_append]
  exact Nat.add_le_add_right hd 1

/-- Every reply fits the buffer it is built in. -/
theorem process_fits {answers reports : Bytes → Prop} (c : Circumstance answers reports) (nets : Networks F)
    (buf : Bytes) : (ctrlIfaceProcess c nets buf).2.length < replySize := by
  have hfail : failReply.length < replySize := failReply_length
  have hanswer : ∀ result : Option (Networks F), (answerTo nets result).2.length < replySize := by
    intro result
    cases result with
    | none => exact hfail
    | some nets' => exact okReply_length
  have hrefused : ∀ r : Networks F × Bytes, r.2.length < replySize →
      (c.refusal.elim r fun text => (nets,text.1)).2.length < replySize := by
    intro r h
    cases c.refusal with
    | none => exact h
    | some text => exact text.2.1
  unfold ctrlIfaceProcess
  dsimp only
  split
  · exact hrefused _ (hanswer _)
  · split
    · exact hanswer _
    · split
      · split
        · exact hfail
        · unfold ctrlIfaceAddNetwork
          dsimp only
          split
          · assumption
          · exact hfail
      · split
        · exact hanswer _
        · split
          · exact hrefused _ (hanswer _)
          · exact c.report.2.1

/-- The daemon, which may refuse with any text that satisfies `answers`, and report any text that
satisfies `reports`. -/
def supplicant (F : SsidFields) (answers reports : Bytes → Prop) : Daemon where
  State := Networks F
  Choice := Circumstance answers reports
  serve := ctrlIfaceProcess
  fits := process_fits

/-- The circumstance in which every request is performed. -/
def performing : AnyCircumstance := ⟨none,⟨[],nil_length_lt,trivial⟩⟩

end WpaCliWrapper
