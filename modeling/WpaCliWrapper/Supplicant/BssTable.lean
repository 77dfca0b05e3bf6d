import WpaCliWrapper.Utils.Eloop
import WpaCliWrapper.Wrapper.CliEvent

/-! The table of BSSs of the daemon: what a round of scan results does to it, and which entries are
dropped. Entries are known by their addresses. -/
namespace WpaCliWrapper
open CText Exchange

section Types

/-- `struct wpa_bss` at the address `ptr`. -/
structure WpaBss where
  ptr : ℕ
  id : ℕ
  lastUpdateIdx : ℕ
  scanMissCount : ℕ
  bssid : Vector UInt8 6
  ssid : Bytes
  freq : ℤ
  lastUpdate : RelTime
  ies : Bytes
  beaconIes : Bytes

/-- `struct wpa_scan_res` -/
structure WpaScanRes where
  bssid : Vector UInt8 6
  freq : ℤ
  age : ℕ
  ies : Bytes
  beaconIes : Bytes

def WpaBss.key (bss : WpaBss) : Vector UInt8 6 × Bytes := (bss.bssid,bss.ssid)

/-- What is announced about an entry. -/
def WpaBss.entry (bss : WpaBss) : BssEntry := ⟨bss.id,bss.bssid,bss.ssid⟩

/-- The configuration; `ssids` has the SSID of each network, and is empty at one without.
`wpsCandidate` is `wpa_bss_is_wps_candidate`, which looks into the WPS elements. -/
structure BssConf where
  p2p : Bool
  ssids : List Bytes
  bssMaxCount : ℕ
  bssExpirationScanCount : ℕ
  ignoreOldScanRes : Bool
  scanTriggerTime : RelTime
  bssidFilter : Option (List (Vector UInt8 6))
  p2pGroupInterface : Bool
  wpsCandidate : WpaBss → Bool

/-- What the allocations give that a scan result needs; `moves` says whether `os_realloc` finds the
room elsewhere. -/
structure ScanMemory where
  zalloc : Bool
  realloc : Bool
  moves : Bool
  grow : Bool

/-- The variables of `struct wpa_supplicant` around the table. The pending radio work for a connection
may hold an entry. Each allocation takes the address `nextPtr`. -/
structure BssTable where
  conf : BssConf
  bss : List WpaBss
  bssId : List ℕ
  numBss : ℕ
  bssNextId : ℕ
  bssUpdateIdx : ℕ
  lastScanRes : List ℕ
  lastScanResSize : ℕ
  currentBss : Option ℕ
  bssid : Vector UInt8 6
  pendingBssid : Vector UInt8 6
  workBss : Option ℕ
  bssRemoved : Bool
  nextPtr : ℕ
  announced : List (Change BssEntry)

/-- An access to memory that was given back. -/
inductive BssFault where
  | freed
  deriving DecidableEq

end Types

section Elements

/-- The information elements in front of the first one that is cut off; each takes two bytes. -/
def elements : ℕ → Bytes → List (UInt8 × Bytes)
  | n+1, eid :: len :: rest =>
    if len.toNat ≤ rest.length then
      (eid,rest.take len.toNat) :: elements n (rest.drop len.toNat)
    else []
  | _, _ => []

/-- `get_ie` -/
def getIe (ies : Bytes) (eid : UInt8) : Option Bytes :=
  ((elements ies.length ies).find? (·.1 = eid)).map (·.2)

/-- `wpa_scan_get_vendor_ie` and `wpa_bss_get_vendor_ie` for `P2P_IE_VENDOR_TYPE` -/
def p2pIe (ies : Bytes) : Bool :=
  (elements ies.length ies).any fun e => e.1 = 221 ∧ e.2.take 4 = [0x50,0x6f,0x9a,0x09]

def calculateUpdateTime (fetchTime : RelTime) (ageMs : ℕ) : RelTime :=
  let usec : ℤ := ageMs % 1000*1000
  let sec : ℤ := fetchTime.1-ageMs/1000
  if fetchTime.2 < usec then (sec-1,fetchTime.2+1000000-usec) else (sec,fetchTime.2-usec)

/-- The SSID that an entry gets from a scan result, if it gets one. -/
def scanSsid (conf : BssConf) (res : WpaScanRes) (fetchTime : RelTime) : Option Bytes :=
  if conf.ignoreOldScanRes ∧ isBefore (calculateUpdateTime fetchTime res.age) conf.scanTriggerTime then
    none
  else
    match getIe res.ies 0 with
    | none => none
    | some ssid =>
      if ssidMaxLen < ssid.length then none
      else if conf.p2p ∧ !p2pIe res.ies ∧ conf.p2pGroupInterface then none
      else if p2pIe res.ies ∧ ssid = p2pWildcardSsid then none
      else
        match getIe res.ies 114 with
        | some mesh => if mesh.length ≤ ssidMaxLen then some mesh else some ssid
        | none => some ssid

/-- `wpa_supplicant_filter_bssid_match` -/
def filterBssidMatch (conf : BssConf) (bssid : Vector UInt8 6) : Bool :=
  conf.bssidFilter.elim true fun filter => filter.contains bssid

def wpaBssKnown (conf : BssConf) (bss : WpaBss) : Bool :=
  conf.ssids.any fun ssid => ssid ≠ [] ∧ ssid = bss.ssid

end Elements

namespace BssTable
variable (t : BssTable)

section Entries

/-- What is found at an address. -/
def at? (ptr : ℕ) : Option WpaBss := t.bss.find? (·.ptr = ptr)

def wpaBssInUse (bss : WpaBss) : Except BssFault Bool :=
  let address := bss.bssid ≠ Vector.replicate 6 0 ∧
    (bss.bssid = t.bssid ∨ bss.bssid = t.pendingBssid)
  match t.currentBss with
  | none => .ok address
  | some curr =>
    if bss.ptr = curr then .ok true
    else
      match t.at? curr with
      | none => .error .freed
      | some current => .ok (bss.ssid = current.ssid ∧ address)

def wpaBssRemove (bss : WpaBss) : BssTable :=
  { t with
    lastScanRes := t.lastScanRes.erase bss.ptr
    workBss := if t.workBss = some bss.ptr then none else t.workBss
    bssRemoved := t.bssRemoved || t.workBss = some bss.ptr
    bss := t.bss.eraseP (·.ptr = bss.ptr)
    bssId := t.bssId.erase bss.ptr
    numBss := t.numBss-1
    announced := t.announced ++ [.removed bss.entry] }

def wpaBssGet (bssid : Vector UInt8 6) (ssid : Bytes) : Option WpaBss :=
  if filterBssidMatch t.conf bssid then t.bss.find? fun bss => bss.bssid = bssid ∧ bss.ssid = ssid
  else none

/-- The first entry of some that is not in use. -/
def firstUnused : List WpaBss → Except BssFault (Option WpaBss)
  | [] => .ok none
  | bss :: rest => do if ← t.wpaBssInUse bss then firstUnused rest else return some bss

/-- The entry that `wpa_bss_remove_oldest` removes. -/
def oldest : Except BssFault (Option WpaBss) :=
  match t.bss.find? fun bss => !wpaBssKnown t.conf bss && !t.conf.wpsCandidate bss with
  | some bss => .ok (some bss)
  | none => t.firstUnused t.bss

/-- When the table is full and nothing can be removed, its bound is raised. -/
def makeRoom : Except BssFault BssTable :=
  if t.conf.bssMaxCount < t.numBss+1 then do
    match ← t.oldest with
    | some bss => return t.wpaBssRemove bss
    | none => return { t with conf := { t.conf with bssMaxCount := t.numBss+1 } }
  else .ok t

end Entries

section Results
variable (res : WpaScanRes) (fetchTime : RelTime) (mem : ScanMemory)

/-- A new entry, whose identity is counted modulo `2^32`. -/
def newBss (ssid : Bytes) : WpaBss where
  ptr := t.nextPtr
  id := t.bssNextId
  lastUpdateIdx := t.bssUpdateIdx
  scanMissCount := 0
  bssid := res.bssid
  ssid := ssid
  freq := res.freq
  lastUpdate := calculateUpdateTime fetchTime res.age
  ies := res.ies
  beaconIes := res.beaconIes

/-- `wpa_bss_add` gives the address of the entry, or NULL. -/
def wpaBssAdd (ssid : Bytes) : Except BssFault (BssTable × Option ℕ) :=
  if !mem.zalloc then .ok (t,none)
  else do
    let bss := t.newBss res fetchTime ssid
    let t ← makeRoom { t with nextPtr := t.nextPtr+1, bssNextId := (t.bssNextId+1)%2^32 }
    return ({ t with
      bss := t.bss ++ [bss], bssId := t.bssId ++ [bss.ptr], numBss := t.numBss+1
      announced := t.announced ++ [.added bss.entry] },some bss.ptr)

/-- An entry with the values of a scan result; its elements are copied apart. -/
def copyRes (bss : WpaBss) : WpaBss :=
  { bss with
    scanMissCount := 0, lastUpdateIdx := t.bssUpdateIdx, bssid := res.bssid, freq := res.freq
    lastUpdate := calculateUpdateTime fetchTime res.age }

/-- An entry that was updated comes to the end of the list. -/
def putLast (old : ℕ) (bss : WpaBss) : BssTable :=
  { t with bss := t.bss.eraseP (·.ptr = old) ++ [bss] }

/-- Each variable that holds the old address gets the new one. -/
def movePtr (old new : ℕ) : BssTable :=
  { t with
    lastScanRes := t.lastScanRes.replace old new
    currentBss := if t.currentBss = some old then some new else t.currentBss
    workBss := if t.workBss = some old then some new else t.workBss
    bssId := t.bssId.replace old new }

/-- `wpa_bss_update` gives the address of the entry, which may move when it is too small. -/
def wpaBssUpdate (bss : WpaBss) : BssTable × ℕ :=
  let copied := t.copyRes res fetchTime bss
  if t.conf.p2p ∧ p2pIe bss.ies ∧ !p2pIe res.ies then (t.putLast bss.ptr copied,bss.ptr)
  else if res.ies.length+res.beaconIes.length ≤ bss.ies.length+bss.beaconIes.length then
    (t.putLast bss.ptr { copied with ies := res.ies, beaconIes := res.beaconIes },bss.ptr)
  else if !mem.realloc then (t.putLast bss.ptr copied,bss.ptr)
  else if !mem.moves then
    (t.putLast bss.ptr { copied with ies := res.ies, beaconIes := res.beaconIes },bss.ptr)
  else
    (putLast { t.movePtr bss.ptr t.nextPtr with nextPtr := t.nextPtr+1 } bss.ptr
      { copied with ptr := t.nextPtr, ies := res.ies, beaconIes := res.beaconIes },t.nextPtr)

/-- The end of `wpa_bss_update_scan_res`: the array of the results grows when it is full. Its size is
an `unsigned int` in the source, whose doubling is exact below `2^31` results. -/
def pushResult (ptr : ℕ) : BssTable :=
  if t.lastScanResSize ≤ t.lastScanRes.length then
    if !mem.grow then t
    else
      { t with
        lastScanRes := t.lastScanRes ++ [ptr]
        lastScanResSize := if t.lastScanResSize = 0 then 32 else t.lastScanResSize*2 }
  else { t with lastScanRes := t.lastScanRes ++ [ptr] }

def wpaBssUpdateScanRes : Except BssFault BssTable :=
  match scanSsid t.conf res fetchTime with
  | none => .ok t
  | some ssid =>
    match t.wpaBssGet res.bssid ssid with
    | none => do
      let (t,ptr) ← t.wpaBssAdd res fetchTime mem ssid
      return ptr.elim t fun ptr => t.pushResult mem ptr
    | some bss =>
      let (t,ptr) := t.wpaBssUpdate res fetchTime mem bss
      if ptr ∈ t.lastScanRes then .ok t else .ok (t.pushResult mem ptr)

end Results

section Rounds

/-- `struct scan_info`: the frequencies and SSIDs that were scanned. -/
structure ScanInfo where
  aborted : Bool
  freqs : List ℤ
  ssids : List Bytes

def wpaBssIncludedInScan (bss : WpaBss) : Option ScanInfo → Bool
  | none => true
  | some info =>
    (info.freqs == [] || info.freqs.contains bss.freq) &&
      (info.ssids == [] || info.ssids.any fun ssid => ssid = [] ∨ ssid = bss.ssid)

def wpaBssUpdateStart : BssTable :=
  { t with bssUpdateIdx := (t.bssUpdateIdx+1)%2^32, lastScanRes := [] }

def setMiss (ptr n : ℕ) : BssTable :=
  { t with bss := t.bss.map fun bss => if bss.ptr = ptr then { bss with scanMissCount := n } else bss }

/-- The loop of `wpa_bss_update_end` over the entries from its start. -/
def expire (info : Option ScanInfo) : List WpaBss → BssTable → Except BssFault BssTable
  | [], t => .ok t
  | bss :: rest, t => do
    if ← t.wpaBssInUse bss then expire info rest t
    else if !wpaBssIncludedInScan bss info then expire info rest t
    else
      let miss := if bss.lastUpdateIdx < t.bssUpdateIdx then bss.scanMissCount+1
        else bss.scanMissCount
      let t := t.setMiss bss.ptr miss
      if t.conf.bssExpirationScanCount ≤ miss then
        expire info rest (t.wpaBssRemove bss)
      else expire info rest t

def wpaBssUpdateEnd (info : Option ScanInfo) (newScan : Bool) : Except BssFault BssTable :=
  if info.any (·.aborted) ∨ !newScan then .ok t else expire info t.bss t

/-- The results of a round, one after another. -/
def updateScanRes (fetchTime : RelTime) :
    List (WpaScanRes × ScanMemory) → BssTable → Except BssFault BssTable
  | [], t => .ok t
  | (res,mem) :: rest, t => do
    updateScanRes fetchTime rest (← t.wpaBssUpdateScanRes res fetchTime mem)

/-- `wpa_supplicant_get_scan_results` from `filter_scan_res` on; the results are sorted. -/
def getScanResults (results : List (WpaScanRes × ScanMemory)) (fetchTime : RelTime)
    (info : Option ScanInfo) (newScan : Bool) : Except BssFault BssTable := do
  let t ← updateScanRes fetchTime (results.filter (filterBssidMatch t.conf ·.1.bssid))
    t.wpaBssUpdateStart
  t.wpaBssUpdateEnd info newScan

/-- The loop of `wpa_bss_flush_by_age` stops at the first entry that is young enough. -/
def flushByAge (limit : RelTime) : List WpaBss → BssTable → Except BssFault BssTable
  | [], t => .ok t
  | bss :: rest, t => do
    if ← t.wpaBssInUse bss then flushByAge limit rest t
    else if isBefore bss.lastUpdate limit then flushByAge limit rest (t.wpaBssRemove bss)
    else return t

def wpaBssFlushByAge (now : RelTime) (age : ℤ) : Except BssFault BssTable :=
  flushByAge (now.1-age,now.2) t.bss t

def flush : List WpaBss → BssTable → Except BssFault BssTable
  | [], t => .ok t
  | bss :: rest, t => do
    if ← t.wpaBssInUse bss then flush rest t else flush rest (t.wpaBssRemove bss)

def wpaBssFlush : Except BssFault BssTable := flush t.bss t

end Rounds

end BssTable

/-- `wpa_bss_init` -/
def wpaBssInit (conf : BssConf) : BssTable :=
  ⟨conf,[],[],0,0,0,[],0,none,Vector.replicate 6 0,Vector.replicate 6 0,none,false,0,[]⟩

end WpaCliWrapper
