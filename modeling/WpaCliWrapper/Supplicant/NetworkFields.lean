import Mathlib.Data.Nat.Bitwise
import WpaCliWrapper.CText.Flags
import WpaCliWrapper.CText.Strtol
import WpaCliWrapper.Supplicant.ScanResults
import WpaCliWrapper.Utils.Hex

/-! The variables of a network, `wpa_supplicant/config.c`: the rows of `ssid_fields` in a build with
the options of `.config`, and how each of them reads a text and writes one. A parser gets the members
of `struct wpa_ssid` that its row is for; it returns 0, or 1 if nothing changes, or -1. -/
namespace WpaCliWrapper
open CText

/-- A read behind the end of an array. -/
inductive ConfigFault where
  | outside
  deriving DecidableEq

section Strings

/-- `wpa_config_parse_str`; only a string with a length of its own keeps bytes behind a NUL. -/
def wpaConfigParseStrField (hasLen : Bool) (minLen maxLen : ℕ) (dst : Option Bytes)
    (value : Bytes) : ℤ × Option Bytes :=
  if value = ascii "NULL" then (if dst = none then 1 else 0,none)
  else
    match wpaConfigParseString value with
    | none => (-1,dst)
    | some tmp =>
      if minLen ≠ 0 ∧ tmp.length < minLen then (-1,dst)
      else if maxLen ≠ 0 ∧ maxLen < tmp.length then (-1,dst)
      else if dst = some tmp then (1,dst)
      else (0,some (if hasLen then tmp else cstr tmp))

def isHex (data : Bytes) : Bool := data.any fun c => c < 32 || 127 ≤ c

def hasCtrlChar (data : Bytes) : Bool := data.any fun c => c < 32 || c = 127

def hasNewline (str : Bytes) : Bool := str.any fun c => c = 10 || c = 13

def wpaConfigWriteStringAscii (value : Bytes) : Bytes := 34 :: (value ++ [34])

def wpaConfigWriteStringHex (value : Bytes) : Bytes := value.flatMap byteDigits

def wpaConfigWriteString (value : Bytes) : Bytes :=
  if isHex value then wpaConfigWriteStringHex value else wpaConfigWriteStringAscii value

/-- `wpa_config_parse_int`; a value out of range leaves the bound behind. -/
def wpaConfigParseInt (minValue maxValue dst : ℤ) (value : Bytes) : ℤ × ℤ :=
  let (number,rest) := strtolAuto value
  let val := number.bmod (2^32)
  if rest ≠ [] then (-1,dst)
  else if dst = val then (1,dst)
  else if minValue ≠ 0 ∧ val < minValue then (-1,minValue)
  else if maxValue ≠ 0 ∧ maxValue < val then (-1,maxValue)
  else (0,val)

end Strings

section Addresses

/-- The bytes that `hwaddr_parse` stores, also when it fails later. -/
def hwaddrStored : ℕ → Bytes → Bytes
  | 0, _ => []
  | bytes+1, txt =>
    (hex2byte txt).elim [] fun a =>
      a :: match txt.drop 2 with
        | 58 :: txt => hwaddrStored bytes txt
        | _ => []

def hwaddrMaskedAton (maskable : Bool) (txt : Bytes) : Option (Bytes × Bytes) := do
  let (addr,rest) ← hwaddrParse ethAlen txt
  match rest with
  | [] => return (addr,List.replicate ethAlen 255)
  | c :: rest =>
    if isSpace c then return (addr,List.replicate ethAlen 255)
    else if maskable ∧ c = 47 then return (addr,(← hwaddrParse ethAlen rest).1)
    else none

def hwaddrMaskTxt (a : Bytes × Bytes) : Bytes :=
  if a.2.any (· ≠ 255) then macStr a.1 ++ 47 :: macStr a.2 else macStr a.1

def skipBlanks (pos : Bytes) : Bytes := pos.dropWhile (· = 32)

/-- The next blank, `strchr(pos, ' ')`. -/
def fromBlank (pos : Bytes) : Bytes := pos.dropWhile (· ≠ 32)

theorem fromBlank_length {pos : Bytes} (h : pos ≠ []) :
    (fromBlank (skipBlanks pos)).length < pos.length := by
  have hle : (skipBlanks pos).length ≤ pos.length := (List.dropWhile_suffix _).length_le
  have hpos := List.length_pos_iff.mpr h
  cases hp : skipBlanks pos with
  | nil => exact hpos
  | cons c rest =>
    have hc : c ≠ 32 := by
      have hhead := List.head?_dropWhile_not (fun c : UInt8 => decide (c = 32)) pos
      rw [← skipBlanks,hp] at hhead
      exact of_decide_eq_false hhead
    have hrest : (fromBlank rest).length ≤ rest.length := (List.dropWhile_suffix _).length_le
    have hdrop : fromBlank (c :: rest) = fromBlank rest :=
      List.dropWhile_cons_of_pos (decide_eq_true hc)
    rw [hp,List.length_cons] at hle
    rw [hdrop]
    omega

theorem fromBlank_tail_length (pos : Bytes) :
    (fromBlank (skipBlanks pos).tail).length ≤ pos.length-1 := by
  have hle : (skipBlanks pos).length ≤ pos.length := (List.dropWhile_suffix _).length_le
  have htail : (fromBlank (skipBlanks pos).tail).length ≤ (skipBlanks pos).tail.length :=
    (List.dropWhile_suffix _).length_le
  rw [List.length_tail] at htail
  omega

/-- The loop of `wpa_config_parse_addr_list`: a new address is the first of the list. -/
def parseAddrs (abortOnError masked : Bool) (list : List (Bytes × Bytes)) (pos : Bytes) :
    Option (List (Bytes × Bytes)) :=
  if h : pos = [] then some list
  else
    have := fromBlank_length h
    match hwaddrMaskedAton masked (skipBlanks pos) with
    | none =>
      if abortOnError ∨ list = [] then none
      else parseAddrs abortOnError masked list (fromBlank (skipBlanks pos))
    | some a => parseAddrs abortOnError masked (a :: list) (fromBlank (skipBlanks pos))
termination_by pos.length

def wpaConfigParseAddrList (abortOnError masked : Bool) (list : List (Bytes × Bytes))
    (value : Bytes) : ℤ × List (Bytes × Bytes) :=
  (parseAddrs abortOnError masked [] value).elim (-1,list) fun l => (0,l)

def wpaConfigWriteAddrList (list : List (Bytes × Bytes)) : Option Bytes :=
  if list = [] then none
  else
    let (text,fits) := writeWords (2*20*list.length) [] (list.reverse.map hwaddrMaskTxt)
    if fits then some text else none

def wpaConfigParseBssid (dst : Bytes × Bool) (value : Bytes) : ℤ × Bytes × Bool :=
  if value = [] ∨ value = ascii "\"\"" ∨ value = ascii "any" then (0,dst.1,false)
  else
    match hwaddrAton value with
    | none => (-1,overwrite dst.1 (hwaddrStored ethAlen value),dst.2)
    | some addr => (0,addr,true)

def wpaConfigWriteBssid (src : Bytes × Bool) : Option Bytes :=
  if src.2 then some (macStr src.1) else none

def wpaConfigParseBssidBlacklist : List (Bytes × Bytes) → Bytes → ℤ × List (Bytes × Bytes) :=
  wpaConfigParseAddrList true true

def wpaConfigParseBssidWhitelist : List (Bytes × Bytes) → Bytes → ℤ × List (Bytes × Bytes) :=
  wpaConfigParseAddrList true true

end Addresses

section Keys

def pmkLen : ℕ := 32

/-- The bytes that `hexstr2bin` stores, also when it fails later. -/
def hexStored : ℕ → Bytes → Bytes
  | 0, _ => []
  | len+1, hex => (hex2byte hex).elim [] fun a => a :: hexStored len (hex.drop 2)

/-- What stands before the last double quote, or all of it. -/
def beforeQuote (value : Bytes) : Bytes :=
  if 34 ∈ value then (value.reverse.dropWhile (· ≠ 34)).tail.reverse else value

/-- The members `passphrase`, `psk` and `psk_set`. -/
structure PskMembers where
  passphrase : Option Bytes
  psk : Bytes
  pskSet : Bool

def wpaConfigParsePsk (dst : PskMembers) : Bytes → ℤ × PskMembers
  | 34 :: value =>
    let phrase := beforeQuote value
    if phrase.length < 8 ∨ 63 < phrase.length then (-1,dst)
    else if hasCtrlChar phrase then (-1,dst)
    else if dst.passphrase = some phrase then (1,dst)
    else (0,⟨some phrase,dst.psk,false⟩)
  | value =>
    let psk := overwrite dst.psk (hexStored pmkLen value)
    if (hexstr2bin pmkLen value).isNone ∨ value.length ≠ 2*pmkLen then
      (-1,⟨dst.passphrase,psk,dst.pskSet⟩)
    else (0,⟨none,psk,true⟩)

def wpaConfigWritePsk (src : PskMembers) : Option Bytes :=
  match src.passphrase with
  | some phrase => some (wpaConfigWriteStringAscii phrase)
  | none => if src.pskSet then some (wpaConfigWriteStringHex src.psk) else none

/-- The EAP password, and whether it is the hash of one. -/
abbrev PasswordMembers := Option Bytes × Bool

def wpaConfigParsePassword (dst : PasswordMembers) (value : Bytes) : ℤ × PasswordMembers :=
  if value = ascii "NULL" then (if dst.1 = none then 1 else 0,none,dst.2)
  else if (ascii "hash:").isPrefixOf value then
    let hex := value.drop 5
    if hex.length ≠ 2*16 then (-1,dst)
    else
      match hexstr2bin 16 hex with
      | none => (-1,dst)
      | some hash => if dst = (some hash,true) then (1,dst) else (0,some hash,true)
  else
    match wpaConfigParseString value with
    | none => (-1,dst)
    | some tmp => (0,some tmp,false)

def wpaConfigWritePassword (src : PasswordMembers) : Except ConfigFault (Option Bytes) :=
  match src with
  | (none,_) => .ok none
  | (some password,true) =>
    if password.length < 16 then .error .outside
    else .ok (some (ascii "hash:" ++ wpaConfigWriteStringHex (password.take 16)))
  | (some password,false) => .ok (some (wpaConfigWriteString password))

def maxWepKeyLen : ℕ := 16

/-- `wpa_config_parse_wep_key`: the length is stored before it is checked. -/
def wpaConfigParseWepKey (dst : Bytes × ℕ) (value : Bytes) : ℤ × Bytes × ℕ :=
  match wpaConfigParseString value with
  | none => (-1,dst)
  | some buf =>
    if maxWepKeyLen < buf.length then (-1,dst.1,buf.length)
    else (0,overwrite dst.1 buf,buf.length)

def wpaConfigWriteWepKey (src : Bytes × ℕ) : Except ConfigFault (Option Bytes) :=
  if src.2 = 0 then .ok none
  else if src.1.length < src.2 then .error .outside
  else .ok (some (wpaConfigWriteString (src.1.take src.2)))

end Keys

section Flags

def isBlank9 (c : UInt8) : Bool := c = 32 || c = 9

/-- The loop over the words of `value`: every word is a flag, and there has to be one. -/
def parseFlags (table : List (Bytes × ℕ)) (dst : ℕ) (value : Bytes) : ℤ × ℕ :=
  let (val,unknown) := readFlags table (words isBlank9 value)
  let errors := if val = 0 then unknown+1 else unknown
  if errors = 0 ∧ dst = val then (1,dst) else (if errors = 0 then 0 else -1,val)

/-- The names of the flags, in a buffer of some size; NULL if there is none. -/
def writeFlags (size : ℕ) (table : List (Bytes × ℕ)) (val : ℕ) : Option Bytes :=
  if flagNames table val = [] then none else some (writeWords size [] (flagNames table val)).1

def protoFlags : List (Bytes × ℕ) := [(ascii "WPA",0),(ascii "RSN",1),(ascii "OSEN",3)]

def wpaConfigParseProto : ℕ → Bytes → ℤ × ℕ := parseFlags (protoFlags ++ [(ascii "WPA2",1)])
def wpaConfigWriteProto : ℕ → Option Bytes := writeFlags 20 protoFlags

def keyMgmtFlags : List (Bytes × ℕ) :=
  [(ascii "WPA-PSK",1),(ascii "WPA-EAP",0),(ascii "IEEE8021X",3),(ascii "NONE",2),
    (ascii "WPA-NONE",4)]

def wpaConfigParseKeyMgmt : ℕ → Bytes → ℤ × ℕ := parseFlags keyMgmtFlags
def wpaConfigWriteKeyMgmt : ℕ → Option Bytes := writeFlags 100 keyMgmtFlags

def authAlgFlags : List (Bytes × ℕ) := [(ascii "OPEN",0),(ascii "SHARED",1),(ascii "LEAP",2)]

def wpaConfigParseAuthAlg : ℕ → Bytes → ℤ × ℕ := parseFlags authAlgFlags
def wpaConfigWriteAuthAlg : ℕ → Option Bytes := writeFlags 30 authAlgFlags

/-- The ciphers that `wpa_write_ciphers` has a name for. -/
def writtenCiphers : List (Bytes × ℕ) :=
  [(ascii "CCMP-256",9),(ascii "GCMP-256",8),(ascii "CCMP",4),(ascii "GCMP",6),(ascii "TKIP",3),
    (ascii "NONE",0)]

def cipherFlags : List (Bytes × ℕ) :=
  writtenCiphers ++ [(ascii "WEP104",2),(ascii "WEP40",1),(ascii "GTK_NOT_USED",14)]

/-- `wpa_parse_cipher` -/
def wpaConfigParseCipher (value : Bytes) : Option ℕ :=
  let (val,unknown) := readFlags cipherFlags (words isBlank9 value)
  if unknown ≠ 0 ∨ val = 0 then none else some val

/-- `wpa_write_ciphers` -/
def wpaConfigWriteCipher (cipher : ℕ) : Option Bytes :=
  let (text,fits) := writeWords 50 [] (flagNames writtenCiphers cipher)
  if fits then some text else none

def wepCiphers : ℕ := 2^2 ||| 2^1
def wpaAllowedPairwiseCiphers : ℕ := 2^4 ||| 2^6 ||| 2^3 ||| 2^0 ||| 2^8 ||| 2^9
def wpaAllowedGroupCiphers : ℕ := 2^4 ||| 2^6 ||| 2^3 ||| 2^8 ||| 2^9 ||| 2^14

def wpaConfigParsePairwise (dst : ℕ) (value : Bytes) : ℤ × ℕ :=
  match wpaConfigParseCipher value with
  | none => (-1,dst)
  | some val =>
    if val.ldiff wpaAllowedPairwiseCiphers ≠ 0 then (-1,dst)
    else if dst = val then (1,dst) else (0,val)

def wpaConfigParseGroup (dst : ℕ) (value : Bytes) : ℤ × ℕ :=
  match wpaConfigParseCipher value with
  | none => (-1,dst)
  | some val =>
    let val := val.ldiff wepCiphers
    if val.ldiff wpaAllowedGroupCiphers ≠ 0 then (-1,dst)
    else if dst = val then (1,dst) else (0,val)

end Flags

section Lists

/-- `wpa_config_parse_int_array` -/
def wpaConfigParseIntArray (pos : Bytes) : List ℤ :=
  if atoi (skipBlanks pos) = 0 then []
  else
    have := fromBlank_tail_length pos
    if h : fromBlank (skipBlanks pos).tail = [] then [atoi (skipBlanks pos)]
    else
      have := List.length_pos_iff.mpr h
      atoi (skipBlanks pos) :: wpaConfigParseIntArray (fromBlank (skipBlanks pos).tail)
termination_by pos.length

/-- `wpa_config_parse_scan_freq` and `wpa_config_parse_freq_list` -/
def parseFreqs (value : Bytes) : ℤ × Option (List ℤ) :=
  match wpaConfigParseIntArray value with
  | [] => (0,none)
  | freqs => (0,some freqs)

def wpaConfigParseScanFreq (_ : Option (List ℤ)) : Bytes → ℤ × Option (List ℤ) := parseFreqs
def wpaConfigParseFreqList (_ : Option (List ℤ)) : Bytes → ℤ × Option (List ℤ) := parseFreqs

/-- The conversion `%u` of an `int`. -/
def unsignedText (freq : ℤ) : Bytes := decimalNat (freq % 2^32).toNat

def wpaConfigWriteFreqs (freqs : Option (List ℤ)) : Option Bytes :=
  freqs.map fun freqs => (writeWords (10*freqs.length+1) [] (freqs.map unsignedText)).1

/-- The EAP methods of the build; each belongs to the vendor `EAP_VENDOR_IETF`. -/
def eapMethodNames : List (Bytes × ℕ) :=
  [(ascii "MD5",4),(ascii "TLS",13),(ascii "MSCHAPV2",26),(ascii "PEAP",25),(ascii "TTLS",21),
    (ascii "GTC",6),(ascii "OTP",5),(ascii "LEAP",17)]

def eapTypeNone : ℕ := 0
def eapTypeExpanded : ℕ := 254

def eapPeerGetType (name : Bytes) : ℕ :=
  ((eapMethodNames.find? (·.1 == name)).map Prod.snd).getD eapTypeNone

def eapGetName (type : ℕ) : Option Bytes :=
  if type = eapTypeExpanded then some (ascii "expanded")
  else (eapMethodNames.find? (·.2 == type)).map Prod.fst

/-- `wpa_config_parse_eap`: a name that is unknown ends the stored list. The new list is dropped if it
is as long as the one before and has all of its methods. -/
def wpaConfigParseEap (dst : Option (List ℕ)) (value : Bytes) : ℤ × Option (List ℕ) :=
  let methods := (words isBlank9 value).map eapPeerGetType
  let stored := methods.takeWhile (· ≠ eapTypeNone)
  if eapTypeNone ∈ methods then (-1,some stored)
  else
    match dst with
    | none => (0,some stored)
    | some prev =>
      if prev.length = methods.length ∧ prev.all (· ∈ methods) then (1,dst) else (0,some stored)

def wpaConfigWriteEap (src : Option (List ℕ)) : Option Bytes :=
  src.map fun methods => (writeWords 100 [] (methods.filterMap eapGetName)).1

end Lists

end WpaCliWrapper
