import WpaCliWrapper.Wrapper.Handlers

/-! What a handler does, in general terms: it sends nothing and returns a code, or it sends one
request through one of the two transports; `add_network` and `remove_network` then refresh the
list of networks. -/
namespace WpaCliWrapper
open CText Exchange

variable {D : Daemon}

inductive Plan
  | quiet (messages : List Bytes) (code : ℤ)
  | print (text : Bytes)
  | ask (text : Bytes)
  deriving DecidableEq

def Plan.run (w : Wrapper D) (buf : Bytes) : Plan → Result D
  | .quiet messages code => ⟨{ w with stdout := w.stdout ++ messages },code,buf⟩
  | .print text => let r := wpaCtrlCommand w text; ⟨r.1,r.2,buf⟩
  | .ask text => wpaCtrlCommandWithResults w text buf

/-- The plan with the printing transport only. -/
def Plan.printed (w : Wrapper D) : Plan → Wrapper D × ℤ
  | .quiet messages code => ({ w with stdout := w.stdout ++ messages },code)
  | .print text => wpaCtrlCommand w text
  | .ask text => wpaCtrlCommand w text

/-- The text that a plan sends. -/
def Plan.text : Plan → Option Bytes
  | .quiet _ _ => none
  | .print text => some text
  | .ask text => some text

def cmdPlan (cmd : Bytes) (minArgs : ℕ) (argv : List Bytes) : Plan :=
  match cmdText cmd minArgs argv with
  | .error message => .quiet [message] (-1)
  | .ok text => .ask text

/-- The plan of every buffer-returning handler. -/
def HandlerWithResults.plan (cfg : BuildConfig) (argv : List Bytes) : HandlerWithResults → Plan
  | .status => (statusOption cfg argv).elim (.ask (ascii "STATUS")) .print
  | .ifname => .ask (ascii "IFNAME")
  | .listNetworks => .ask (ascii "LIST_NETWORKS")
  | .selectNetwork => cmdPlan (ascii "SELECT_NETWORK") 1 argv
  | .enableNetwork => cmdPlan (ascii "ENABLE_NETWORK") 1 argv
  | .disableNetwork => cmdPlan (ascii "DISABLE_NETWORK") 1 argv
  | .addNetwork => .ask (ascii "ADD_NETWORK")
  | .removeNetwork => cmdPlan (ascii "REMOVE_NETWORK") 1 argv
  | .setNetwork =>
    if argv.length = 0 then .quiet [networkVariables] 0
    else if argv.length < 3 then .quiet [setNetworkUsage] (-1)
    else cmdPlan (ascii "SET_NETWORK") 3 argv
  | .saveConfig => .ask (ascii "SAVE_CONFIG")
  | .scan => cmdPlan (ascii "SCAN") 0 argv
  | .scanResults => .ask (ascii "SCAN_RESULTS")
  | .default => .quiet [ascii "handler_with_results_default_func not implemented!\n"] (-100)

/-- The handlers that refresh the list of networks. -/
def HandlerWithResults.updates : HandlerWithResults → Bool
  | .addNetwork | .removeNetwork => true
  | _ => false

theorem cmdPlan_run (w : Wrapper D) (cmd : Bytes) (minArgs : ℕ) (argv : List Bytes) (buf : Bytes) :
    (cmdPlan cmd minArgs argv).run w buf = wpaCliCmdWithResults w cmd minArgs argv buf := by
  unfold cmdPlan wpaCliCmdWithResults
  cases cmdText cmd minArgs argv <;> rfl

/-- Every buffer-returning handler follows its plan. -/
theorem HandlerWithResults.run_eq (cfg : BuildConfig) (w : Wrapper D) (argv : List Bytes)
    (buf : Bytes) (h : HandlerWithResults) :
    h.run cfg w argv buf =
      if h.updates then ((h.plan cfg argv).run w buf).updateNetworks
      else .ok ((h.plan cfg argv).run w buf) := by
  cases h with
  | status =>
    simp only [run,updates,plan,wpaCliCmdStatusWithResults,Bool.false_eq_true,if_false]
    cases statusOption cfg argv <;> rfl
  | setNetwork =>
    simp only [run,updates,plan,wpaCliCmdSetNetworkWithResults,Bool.false_eq_true,if_false]
    split
    · rfl
    · split
      · rfl
      · rw [cmdPlan_run]
  | selectNetwork => simp only [run,updates,plan,cmdPlan_run]; rfl
  | enableNetwork => simp only [run,updates,plan,cmdPlan_run]; rfl
  | disableNetwork => simp only [run,updates,plan,cmdPlan_run]; rfl
  | removeNetwork => simp only [run,updates,plan,cmdPlan_run]; rfl
  | scan => simp only [run,updates,plan,cmdPlan_run]; rfl
  | ifname => rfl
  | listNetworks => rfl
  | addNetwork => rfl
  | saveConfig => rfl
  | scanResults => rfl
  | default => rfl

theorem cmdPlan_print (w : Wrapper D) (cmd : Bytes) (minArgs : ℕ) (argv : List Bytes) :
    (cmdPlan cmd minArgs argv).printed w = wpaCliCmd w cmd minArgs argv := by
  unfold cmdPlan wpaCliCmd
  cases cmdText cmd minArgs argv <;> rfl

/-- The printing handler of a row follows the same plan, with the printing transport only, and
never refreshes the list of networks. -/
theorem WpaCliCmd.Paired.run_eq {cmd : WpaCliCmd} (h : cmd.Paired)
    (hd : cmd.handlerWithResults ≠ .default) (cfg : BuildConfig) (w : Wrapper D)
    (argv : List Bytes) :
    cmd.handler.run cfg w argv =
      some (.ok ((cmd.handlerWithResults.plan cfg argv).printed w)) := by
  unfold Paired at h
  cases hc : cmd.handlerWithResults with
  | status =>
    rw [hc] at h
    simp only [h,Handler.run,wpaCliCmdStatus,HandlerWithResults.plan]
    cases statusOption cfg argv <;> rfl
  | setNetwork =>
    rw [hc] at h
    simp only [h,Handler.run,wpaCliCmdSetNetwork,HandlerWithResults.plan]
    split
    · rfl
    · split
      · rfl
      · rw [cmdPlan_print]
  | selectNetwork =>
    rw [hc] at h
    simp only [h,Handler.run,wpaCliCmdSelectNetwork,HandlerWithResults.plan,cmdPlan_print]
  | enableNetwork =>
    rw [hc] at h
    simp only [h,Handler.run,wpaCliCmdEnableNetwork,HandlerWithResults.plan,cmdPlan_print]
  | disableNetwork =>
    rw [hc] at h
    simp only [h,Handler.run,wpaCliCmdDisableNetwork,HandlerWithResults.plan,cmdPlan_print]
  | removeNetwork =>
    rw [hc] at h
    simp only [h,Handler.run,wpaCliCmdRemoveNetwork,HandlerWithResults.plan,cmdPlan_print]
    rfl
  | scan =>
    rw [hc] at h
    simp only [h,Handler.run,wpaCliCmdScan,HandlerWithResults.plan,cmdPlan_print]
  | ifname => rw [hc] at h; rw [h]; rfl
  | listNetworks => rw [hc] at h; rw [h]; rfl
  | addNetwork => rw [hc] at h; rw [h]; rfl
  | saveConfig => rw [hc] at h; rw [h]; rfl
  | scanResults => rw [hc] at h; rw [h]; rfl
  | default => exact absurd hc hd

end WpaCliWrapper
