import WpaCliWrapper.CText.Decimal
import WpaCliWrapper.Common.Cli
import WpaCliWrapper.Common.WpaCtrl
import WpaCliWrapper.Wrapper.Commands
import WpaCliWrapper.Wrapper.Tokenizer

/-! The command handlers: the two transports `_wpa_ctrl_command` and
`_wpa_ctrl_command_with_results`, and the printing and the buffer-returning handler of every
command that has both. -/
namespace WpaCliWrapper
open CText Exchange

variable {D : Daemon}

/-- The static variables of the library, and what it printed: one entry for each text. -/
structure Wrapper (D : Daemon) where
  initialized : Bool
  ctrlConn : Option (Conn D)
  ifnamePrefix : Option Bytes
  networks : List Bytes
  stdout : List Bytes

/-- The outcome of a handler that works on the caller's buffer. -/
structure Result (D : Daemon) where
  wrapper : Wrapper D
  ret : ℤ
  buf : Bytes

def Wrapper.print (w : Wrapper D) (text : Bytes) : Wrapper D :=
  { w with stdout := w.stdout ++ [text] }

/-- No code of the library sets the variable. -/
def interactive : Bool := false

def ifnameText (name cmd : Bytes) : Bytes := ascii "IFNAME=" ++ (name ++ 32 :: cmd)

/-- The datagram for a command, when the prefixed text is built in a buffer of `size` bytes. -/
def Wrapper.request (w : Wrapper D) (size : ℕ) (cmd : Bytes) : Bytes :=
  match w.ifnamePrefix with
  | none => cmd
  | some name => clip size (ifnameText name cmd)

/-- With a prefix the request is built in the buffer that later takes the reply. -/
def Wrapper.putRequest (w : Wrapper D) (request buf : Bytes) : Bytes :=
  match w.ifnamePrefix with
  | none => buf
  | some _ => terminate (overwrite buf (request ++ [0])) (buf.length-1)

def notConnected : Bytes := ascii "Not connected to wpa_supplicant - command dropped.\n"

/-- The body that `_wpa_ctrl_command` and `_wpa_ctrl_command_with_results` share. -/
def ctrlCommand (w : Wrapper D) (cmd : Bytes) (print : Bool) (buf : Bytes) : Result D :=
  match w.ctrlConn with
  | none => ⟨w.print notConnected,-1,buf⟩
  | some conn =>
    let request := w.request buf.length cmd
    let r := wpaCtrlRequest conn request (w.putRequest request buf) (buf.length-1) true
    let w := { w with ctrlConn := some r.conn, stdout := w.stdout ++ r.messages.map (· ++ [10]) }
    -- with a prefix the printed command is the buffer, which messages may have overwritten
    let shown := if w.ifnamePrefix.isSome then cstr r.reply else cmd
    if r.ret = -2 then ⟨w.print (39 :: shown ++ ascii "' command timed out.\n"),-2,r.reply⟩
    else if r.ret < 0 then ⟨w.print (39 :: shown ++ ascii "' command failed.\n"),-1,r.reply⟩
    else
      let buf := terminate r.reply r.replyLen
      ⟨if print then w.print (cstr buf) else w,0,buf⟩

/-- `wpa_ctrl_command` works on a buffer of its own, whose initial bytes are never read. -/
def wpaCtrlCommand (w : Wrapper D) (cmd : Bytes) : Wrapper D × ℤ :=
  let r := ctrlCommand w cmd true (List.replicate 4096 0)
  (r.wrapper,r.ret)

def wpaCtrlCommandWithResults (w : Wrapper D) (cmd buf : Bytes) : Result D :=
  ctrlCommand w cmd false buf

def invalidCommand (cmd : Bytes) (minArgs : ℕ) : Bytes :=
  ascii "Invalid " ++ cmd ++ ascii " command - at least " ++ decimal minArgs ++ ascii " argument" ++
    (if minArgs > 1 then ascii "s are" else ascii " is") ++ ascii " required.\n"

/-- The request text of a command with arguments, or the message why there is none. -/
def cmdText (cmd : Bytes) (minArgs : ℕ) (argv : List Bytes) : Except Bytes Bytes :=
  if argv.length < minArgs then .error (invalidCommand cmd minArgs)
  else match writeCmd 4096 cmd argv with
    | none => .error (ascii "Too long command\n")
    | some text => .ok text

def wpaCliCmd (w : Wrapper D) (cmd : Bytes) (minArgs : ℕ) (argv : List Bytes) : Wrapper D × ℤ :=
  match cmdText cmd minArgs argv with
  | .error message => (w.print message,-1)
  | .ok text => wpaCtrlCommand w text

def wpaCliCmdWithResults (w : Wrapper D) (cmd : Bytes) (minArgs : ℕ) (argv : List Bytes)
    (buf : Bytes) : Result D :=
  match cmdText cmd minArgs argv with
  | .error message => ⟨w.print message,-1,buf⟩
  | .ok text => wpaCtrlCommandWithResults w text buf

/-- The lines of the reply to `LIST_NETWORKS` that end in a newline, without the header. -/
def networkLines (text : Bytes) : List Bytes := ((text.splitOn 10).dropLast).drop 1

/-- `update_networks` reads up to 4096 bytes into a buffer of 4096 bytes and then terminates
the text behind them. -/
def updateNetworks (w : Wrapper D) : Except Fault (Wrapper D) :=
  let w := { w with networks := [] }
  match w.ctrlConn with
  | none => .ok w
  | some conn =>
    let r := wpaCtrlRequest conn (ascii "LIST_NETWORKS") (List.replicate 4096 0) 4096 false
    let w := { w with ctrlConn := some r.conn }
    if r.ret < 0 then .ok w
    else if 4096 ≤ r.replyLen then .error .networksBuf
    else
      let lines := networkLines (cstr (terminate r.reply r.replyLen))
      .ok { w with networks := lines.foldl (cliTxtListAddWord · · 9) [] }

/-- The requests of the sub-options of `status`. -/
def statusOption (cfg : BuildConfig) (argv : List Bytes) : Option Bytes :=
  if argv.head? = some (ascii "verbose") then some (ascii "STATUS-VERBOSE")
  else if argv.head? = some (ascii "wps") then some (ascii "STATUS-WPS")
  else if argv.head? = some (ascii "driver") then some (ascii "STATUS-DRIVER")
  else if cfg .android ∧ argv.head? = some (ascii "no_events") then some (ascii "STATUS-NO_EVENTS")
  else none

def networkVariables : Bytes :=
  ascii "set_network variables:\n" ++
  ascii "  ssid (network name, SSID)\n" ++
  ascii "  psk (WPA passphrase or pre-shared key)\n" ++
  ascii "  key_mgmt (key management protocol)\n" ++
  ascii "  identity (EAP identity)\n" ++
  ascii "  password (EAP password)\n" ++
  ascii "  ...\n" ++
  ascii "\n" ++
  ascii "Note: Values are entered in the same format as the configuration file is using,\n" ++
  ascii "i.e., strings values need to be inside double quotation marks.\n" ++
  ascii "For example: set_network 1 ssid \"network name\"\n" ++
  ascii "\n" ++
  ascii "Please see wpa_supplicant.conf documentation for full list of\navailable variables.\n"

def setNetworkUsage : Bytes :=
  ascii "Invalid SET_NETWORK command: needs three arguments\n" ++
  ascii "(network id, variable name, and value)\n"

section Printing
variable (cfg : BuildConfig) (w : Wrapper D) (argv : List Bytes)

def wpaCliCmdStatus : Wrapper D × ℤ :=
  wpaCtrlCommand w ((statusOption cfg argv).getD (ascii "STATUS"))
def wpaCliCmdIfname : Wrapper D × ℤ := wpaCtrlCommand w (ascii "IFNAME")
def wpaCliCmdListNetworks : Wrapper D × ℤ := wpaCtrlCommand w (ascii "LIST_NETWORKS")
def wpaCliCmdSelectNetwork : Wrapper D × ℤ := wpaCliCmd w (ascii "SELECT_NETWORK") 1 argv
def wpaCliCmdEnableNetwork : Wrapper D × ℤ := wpaCliCmd w (ascii "ENABLE_NETWORK") 1 argv
def wpaCliCmdDisableNetwork : Wrapper D × ℤ := wpaCliCmd w (ascii "DISABLE_NETWORK") 1 argv
def wpaCliCmdSaveConfig : Wrapper D × ℤ := wpaCtrlCommand w (ascii "SAVE_CONFIG")
def wpaCliCmdScan : Wrapper D × ℤ := wpaCliCmd w (ascii "SCAN") 0 argv
def wpaCliCmdScanResults : Wrapper D × ℤ := wpaCtrlCommand w (ascii "SCAN_RESULTS")

def thenUpdateNetworks (r : Wrapper D × ℤ) : Except Fault (Wrapper D × ℤ) :=
  if interactive then do return (← updateNetworks r.1,r.2) else .ok r

def wpaCliCmdAddNetwork : Except Fault (Wrapper D × ℤ) :=
  thenUpdateNetworks (wpaCtrlCommand w (ascii "ADD_NETWORK"))
def wpaCliCmdRemoveNetwork : Except Fault (Wrapper D × ℤ) :=
  thenUpdateNetworks (wpaCliCmd w (ascii "REMOVE_NETWORK") 1 argv)

def wpaCliCmdSetNetwork : Wrapper D × ℤ :=
  if argv.length = 0 then (w.print networkVariables,0)
  else if argv.length < 3 then (w.print setNetworkUsage,-1)
  else wpaCliCmd w (ascii "SET_NETWORK") 3 argv

end Printing

section WithResults
variable (cfg : BuildConfig) (w : Wrapper D) (argv : List Bytes) (buf : Bytes)

/-- The sub-options go to the printing transport and leave the buffer alone. -/
def wpaCliCmdStatusWithResults : Result D :=
  match statusOption cfg argv with
  | some cmd => let r := wpaCtrlCommand w cmd; ⟨r.1,r.2,buf⟩
  | none => wpaCtrlCommandWithResults w (ascii "STATUS") buf
def wpaCliCmdIfnameWithResults : Result D := wpaCtrlCommandWithResults w (ascii "IFNAME") buf
def wpaCliCmdScanWithResults : Result D := wpaCliCmdWithResults w (ascii "SCAN") 0 argv buf
def wpaCliCmdScanResultsWithResults : Result D :=
  wpaCtrlCommandWithResults w (ascii "SCAN_RESULTS") buf
def wpaCliCmdSelectNetworkWithResults : Result D :=
  wpaCliCmdWithResults w (ascii "SELECT_NETWORK") 1 argv buf
def wpaCliCmdListNetworksWithResults : Result D :=
  wpaCtrlCommandWithResults w (ascii "LIST_NETWORKS") buf
def wpaCliCmdEnableNetworkWithResults : Result D :=
  wpaCliCmdWithResults w (ascii "ENABLE_NETWORK") 1 argv buf
def wpaCliCmdDisableNetworkWithResults : Result D :=
  wpaCliCmdWithResults w (ascii "DISABLE_NETWORK") 1 argv buf
def wpaCliCmdSaveConfigWithResults : Result D :=
  wpaCtrlCommandWithResults w (ascii "SAVE_CONFIG") buf

/-- The list of networks is refreshed whatever became of the command. -/
def Result.updateNetworks (r : Result D) : Except Fault (Result D) := do
  return { r with wrapper := ← WpaCliWrapper.updateNetworks r.wrapper }

def wpaCliCmdAddNetworkWithResults : Except Fault (Result D) :=
  (wpaCtrlCommandWithResults w (ascii "ADD_NETWORK") buf).updateNetworks
def wpaCliCmdRemoveNetworkWithResults : Except Fault (Result D) :=
  (wpaCliCmdWithResults w (ascii "REMOVE_NETWORK") 1 argv buf).updateNetworks

def wpaCliCmdSetNetworkWithResults : Result D :=
  if argv.length = 0 then ⟨w.print networkVariables,0,buf⟩
  else if argv.length < 3 then ⟨w.print setNetworkUsage,-1,buf⟩
  else wpaCliCmdWithResults w (ascii "SET_NETWORK") 3 argv buf

def handlerWithResultsDefaultFunc : Result D :=
  ⟨w.print (ascii "handler_with_results_default_func not implemented!\n"),-100,buf⟩

end WithResults

/-- The printing handlers; those of the other commands are not part of this model. -/
def Handler.run (cfg : BuildConfig) (w : Wrapper D) (argv : List Bytes) :
    Handler → Option (Except Fault (Wrapper D × ℤ))
  | .status => some (.ok (wpaCliCmdStatus cfg w argv))
  | .ifname => some (.ok (wpaCliCmdIfname w))
  | .listNetworks => some (.ok (wpaCliCmdListNetworks w))
  | .selectNetwork => some (.ok (wpaCliCmdSelectNetwork w argv))
  | .enableNetwork => some (.ok (wpaCliCmdEnableNetwork w argv))
  | .disableNetwork => some (.ok (wpaCliCmdDisableNetwork w argv))
  | .addNetwork => some (wpaCliCmdAddNetwork w)
  | .removeNetwork => some (wpaCliCmdRemoveNetwork w argv)
  | .setNetwork => some (.ok (wpaCliCmdSetNetwork w argv))
  | .saveConfig => some (.ok (wpaCliCmdSaveConfig w))
  | .scan => some (.ok (wpaCliCmdScan w argv))
  | .scanResults => some (.ok (wpaCliCmdScanResults w))
  | .other => none

def HandlerWithResults.run (cfg : BuildConfig) (w : Wrapper D) (argv : List Bytes) (buf : Bytes) :
    HandlerWithResults → Except Fault (Result D)
  | .status => .ok (wpaCliCmdStatusWithResults cfg w argv buf)
  | .ifname => .ok (wpaCliCmdIfnameWithResults w buf)
  | .listNetworks => .ok (wpaCliCmdListNetworksWithResults w buf)
  | .selectNetwork => .ok (wpaCliCmdSelectNetworkWithResults w argv buf)
  | .enableNetwork => .ok (wpaCliCmdEnableNetworkWithResults w argv buf)
  | .disableNetwork => .ok (wpaCliCmdDisableNetworkWithResults w argv buf)
  | .addNetwork => wpaCliCmdAddNetworkWithResults w buf
  | .removeNetwork => wpaCliCmdRemoveNetworkWithResults w argv buf
  | .setNetwork => .ok (wpaCliCmdSetNetworkWithResults w argv buf)
  | .saveConfig => .ok (wpaCliCmdSaveConfigWithResults w buf)
  | .scan => .ok (wpaCliCmdScanWithResults w argv buf)
  | .scanResults => .ok (wpaCliCmdScanResultsWithResults w buf)
  | .default => .ok (handlerWithResultsDefaultFunc w buf)

end WpaCliWrapper
