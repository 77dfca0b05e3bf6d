import WpaCliWrapper.Wrapper.Execute

/-! `connect_wifi` and the functions it is made of, from `wpa_cli_oper/wpa_cli_oper.c`. -/
namespace WpaCliWrapper
open CText Exchange

variable {D : Daemon}

/-- What the C program finds in memory: the text at the address that a `char` converts to, if that
is readable, and the text that `%s` reads when its argument is missing. -/
structure Machine where
  stringAt : UInt8 → Option CString
  missingArg : Option CString

/-- `WifiConfig`; `password` is a single `char`. -/
structure WifiConfig where
  ssid : Bytes
  password : UInt8
  flag : ℤ
  size : ssid.length = 128

/-- The text that `%s` reads from `ssid`, if it ends inside the array. -/
def WifiConfig.ssidText (config : WifiConfig) : Option CString :=
  if 0 ∈ config.ssid then some ⟨cstr config.ssid,cstr_noNul config.ssid⟩ else none

/-- The command that `snprintf` leaves in a buffer of 256 bytes. -/
def cmdBuffer (text : Bytes) : CString := ⟨cstr (clip 256 text),cstr_noNul _⟩

def wpaCliCommExec (cfg : BuildConfig) (w : Wrapper D) (cmd : CString) :
    Except Fault (Wrapper D × ℤ) := do
  let r ← wpaCliExecute cfg w cmd (List.replicate 256 0)
  if r.ret < 0 then return (r.wrapper,-1)
  else if hasPrefixCase (cstr r.buf) (ascii "OK") then return (r.wrapper,0)
  else return (r.wrapper,-1)

/-- `strcpy` copies the reply into `network_id`, which has 16 bytes. -/
def addNetwork (cfg : BuildConfig) (w : Wrapper D) (networkId : Bytes) :
    Except Fault (Wrapper D × Bytes × ℤ) := do
  let r ← wpaCliExecute cfg w ⟨ascii "add_network",by decide⟩ (List.replicate 256 0)
  if r.ret < 0 then return (r.wrapper,networkId,-1)
  else if 16 ≤ (cstr r.buf).length then throw .networkId
  else return (r.wrapper,cstr r.buf,0)

/-- The command `set_network <id> <variable> <value>`. -/
def setNetworkCmd (networkId name value : Bytes) : CString :=
  cmdBuffer (ascii "set_network " ++ networkId ++ 32 :: name ++ 32 :: value)

def setSsid (cfg : BuildConfig) (w : Wrapper D) (networkId : Bytes) (ssid : CString) :
    Except Fault (Wrapper D × ℤ) :=
  wpaCliCommExec cfg w (setNetworkCmd networkId (ascii "ssid") ssid.bytes)

/-- For WPA the format string has two conversions and one argument, the password. -/
def setPassword (m : Machine) (cfg : BuildConfig) (w : Wrapper D) (networkId : Bytes) (flag : ℤ)
    (password : UInt8) : Except Fault (Wrapper D × ℤ) :=
  if flag = 0 then do
    let (w,res) ← wpaCliCommExec cfg w (setNetworkCmd networkId (ascii "key_mgmt") (ascii "NONE"))
    if res ≠ 0 then return (w,-1)
    else
      match m.stringAt password with
      | none => throw .string
      | some text => wpaCliCommExec cfg w (setNetworkCmd networkId (ascii "wep_key0") text.bytes)
  else if flag = 1 then
    match m.stringAt password, m.missingArg with
    | some text, some arg =>
      wpaCliCommExec cfg w (setNetworkCmd text.bytes (ascii "psk") arg.bytes)
    | _, _ => throw .string
  else return (w,-1)

/-- `enable_network`, `disable_network` and `remove_network` differ in the command word only. -/
def networkCmd (name networkId : Bytes) : CString := cmdBuffer (name ++ 32 :: networkId)

def enableNetwork (cfg : BuildConfig) (w : Wrapper D) (networkId : Bytes) :
    Except Fault (Wrapper D × ℤ) :=
  wpaCliCommExec cfg w (networkCmd (ascii "enable_network") networkId)

def disableNetwork (cfg : BuildConfig) (w : Wrapper D) (networkId : Bytes) :
    Except Fault (Wrapper D × ℤ) :=
  wpaCliCommExec cfg w (networkCmd (ascii "disable_network") networkId)

def removeNetwork (cfg : BuildConfig) (w : Wrapper D) (networkId : Bytes) :
    Except Fault (Wrapper D × ℤ) :=
  wpaCliCommExec cfg w (networkCmd (ascii "remove_network") networkId)

/-- The steps after `add_network` succeeded, and whether all of them did. -/
def configureNetwork (m : Machine) (cfg : BuildConfig) (w : Wrapper D) (config : WifiConfig)
    (networkId : Bytes) : Except Fault (Wrapper D × Bool) :=
  match config.ssidText with
  | none => throw .string
  | some ssid => do
    let (w,res) ← setSsid cfg w networkId ssid
    if res ≠ 0 then return (w,false)
    else
      let (w,res) ← setPassword m cfg w networkId config.flag config.password
      if res ≠ 0 then return (w,false)
      else
        let (w,res) ← enableNetwork cfg w networkId
        return (w,res == 0)

/-- The body of `do … while (0)`: the wrapper and the text in `network_id` where it is left, and
whether that happens by `return 0`. -/
def connectSteps (m : Machine) (cfg : BuildConfig) (w : Wrapper D) (config : WifiConfig) :
    Except Fault (Wrapper D × Bytes × Bool) := do
  let (w,networkId,res) ← addNetwork cfg w []
  if res ≠ 0 then return (w,networkId,false)
  else
    let (w,connected) ← configureNetwork m cfg w config networkId
    return (w,networkId,connected)

def connectWifi (m : Machine) (cfg : BuildConfig) (w : Wrapper D) (config : WifiConfig) :
    Except Fault (Wrapper D × ℤ) := do
  let (w,networkId,connected) ← connectSteps m cfg w config
  if connected then return (w,0)
  else if networkId = [] then return (w,-1)
  else
    let (w,_) ← disableNetwork cfg w networkId
    let (w,_) ← removeNetwork cfg w networkId
    return (w,-1)

end WpaCliWrapper
