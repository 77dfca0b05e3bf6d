import WpaCliWrapper.Oper.Steps

/-! The parser of scan results: a table of five rows that is filled with the fields of a line, and
an item whose members are smaller than the rows. -/
namespace WpaCliWrapper
open CText Exchange

variable {D : Daemon}

/-- What a `char` array of some bytes can hold. -/
abbrev CharArray (n : ℕ) := { text : Bytes // text.length < n }

@[ext] structure WifiScanItem where
  bssid : CharArray 18
  frequency : ℤ
  signalLevel : ℤ
  flags : CharArray 256
  ssid : CharArray 256

/-- A store outside of the field table, or of the array that is copied into. -/
inductive ScanFault
  | fieldCount
  | strcpy
  deriving DecidableEq

def strcpy (n : ℕ) (text : Bytes) : Except ScanFault (CharArray n) :=
  if h : text.length < n then .ok ⟨text,h⟩ else .error .strcpy

def maxFields : ℕ := 5

/-- The loop over the fields of a line. They are counted only after the last one. -/
def storeFields (fields : List (CharArray 256)) : List Bytes →
    Except ScanFault (List (CharArray 256))
  | [] => .ok fields
  | p :: ps => do
    if maxFields ≤ fields.length then throw .fieldCount
    let field ← strcpy 256 p
    storeFields (fields ++ [field]) ps

/-- The item, if there are five fields. -/
def itemFromFields : List (CharArray 256) → Except ScanFault (Option WifiScanItem)
  | [bssid,frequency,signalLevel,flags,ssid] => do
    let bssid ← strcpy 18 bssid.1
    let flags ← strcpy 256 flags.1
    let ssid ← strcpy 256 ssid.1
    return some ⟨bssid,atoi frequency.1,atoi signalLevel.1,flags,ssid⟩
  | _ => .ok none

def getWifiScanItemFromLine (line : Bytes) : Except ScanFault (Option WifiScanItem) := do
  let fields ← storeFields [] (words (· == 9) line)
  itemFromFields fields

/-- The loop over the lines of the reply. -/
def scanItemsFromLines : List Bytes → Except ScanFault (List WifiScanItem)
  | [] => .ok []
  | line :: lines => do
    let item ← getWifiScanItemFromLine line
    let items ← scanItemsFromLines lines
    return item.toList ++ items

def scanItems (buf : Bytes) : Except ScanFault (List WifiScanItem) :=
  scanItemsFromLines (words (· == 10) (cstr buf))

/-- A fault of `wpa_cli_execute`, or of the parser. -/
inductive ScanResultsFault
  | execute (fault : Fault)
  | parse (fault : ScanFault)
  deriving DecidableEq

def getWifiScanResults (cfg : BuildConfig) (w : Wrapper D) :
    Except ScanResultsFault (Wrapper D × Option (List WifiScanItem)) := do
  let r ← (wpaCliExecute cfg w ⟨ascii "scan",by decide⟩ (List.replicate 4096 0)).mapError .execute
  if r.ret < 0 then return (r.wrapper,none)
  else if !hasPrefixCase (cstr r.buf) (ascii "OK") then return (r.wrapper,none)
  else
    let r ← (wpaCliExecute cfg r.wrapper ⟨ascii "scan_results",by decide⟩
      (List.replicate 4096 0)).mapError .execute
    if r.ret < 0 then return (r.wrapper,none)
    else
      let items ← (scanItems r.buf).mapError .parse
      return (r.wrapper,some items)

/-- At most five fields that fit a row, and if there are five, the first fits `bssid`. -/
def FieldsFit (fields : List Bytes) : Prop :=
  fields.length ≤ 5 ∧ (∀ p ∈ fields, p.length ≤ 255) ∧
    (fields.length = 5 → ∀ bssid ∈ fields.head?, bssid.length ≤ 17)

/-- What the parser makes of the fields of a line. -/
def IsItem (fields : List Bytes) : Option WifiScanItem → Prop
  | none => fields.length ≠ 5
  | some item => ∃ frequency signalLevel,
      fields = [item.bssid.1,frequency,signalLevel,item.flags.1,item.ssid.1] ∧
        item.frequency = atoi frequency ∧ item.signalLevel = atoi signalLevel

section Parser

theorem strcpy_ok_iff {n : ℕ} {text : Bytes} {a : CharArray n} :
    strcpy n text = .ok a ↔ a.1 = text := by
  unfold strcpy
  constructor
  · intro h
    split at h
    · cases h
      rfl
    · cases h
  · rintro rfl
    exact dif_pos a.2

theorem strcpy_self {n : ℕ} (a : CharArray n) : strcpy n a.1 = .ok a := strcpy_ok_iff.mpr rfl

theorem storeFields_ok_iff {fields result : List (CharArray 256)} {ps : List Bytes}
    (h : fields.length ≤ 5) : storeFields fields ps = .ok result ↔
      fields.length+ps.length ≤ 5 ∧ result.map Subtype.val = fields.map Subtype.val ++ ps := by
  induction ps generalizing fields with
  | nil =>
    rw [storeFields,List.append_nil,Except.ok.injEq]
    refine ⟨fun heq => ⟨h,by rw [heq]⟩,fun heq => ?_⟩
    exact (List.map_injective_iff.mpr Subtype.val_injective heq.2).symm
  | cons p ps ih =>
    rw [storeFields]
    by_cases hfull : maxFields ≤ fields.length
    · have hfull' : 5 ≤ fields.length := hfull
      rw [if_pos hfull]
      refine iff_of_false (fun heq => by cases heq) fun heq => ?_
      rw [List.length_cons] at heq
      omega
    · have hlt : fields.length < 5 := Nat.lt_of_not_le hfull
      rw [if_neg hfull]
      cases hp : strcpy 256 p with
      | error fault =>
        refine iff_of_false (fun heq => by cases heq) fun heq => ?_
        -- the field would have to be in one of the rows
        have hmem : p ∈ result.map Subtype.val := by
          rw [heq.2]
          exact List.mem_append_right _ List.mem_cons_self
        obtain ⟨a,-,rfl⟩ := List.mem_map.mp hmem
        rw [strcpy_self] at hp
        cases hp
      | ok field =>
        have hfield := strcpy_ok_iff.mp hp
        change storeFields (fields ++ [field]) ps = .ok result ↔ _
        have hlen : (fields ++ [field]).length+ps.length = fields.length+(p :: ps).length := by
          simp
          omega
        have hmap : (fields ++ [field]).map Subtype.val ++ ps =
            fields.map Subtype.val ++ p :: ps := by simp [hfield]
        rw [ih (by rw [List.length_append]; exact hlt),hlen,hmap]

theorem itemFromFields_ok_iff {fields : List (CharArray 256)} {item : Option WifiScanItem} :
    itemFromFields fields = .ok item ↔ IsItem (fields.map Subtype.val) item := by
  unfold itemFromFields
  split
  · rename_i bssid frequency signalLevel flags ssid
    rw [strcpy_self flags,strcpy_self ssid]
    cases hb : strcpy 18 bssid.1 with
    | error fault =>
      refine iff_of_false (fun heq => by cases heq) fun heq => ?_
      cases item with
      | none => exact heq rfl
      | some item =>
        obtain ⟨f,l,hfields,-⟩ := heq
        have hbssid : bssid.1 = item.bssid.1 := (List.cons.inj hfields).1
        rw [hbssid,strcpy_self] at hb
        cases hb
    | ok b =>
      have hb' := strcpy_ok_iff.mp hb
      change Except.ok (some _) = Except.ok item ↔ _
      constructor
      · intro heq
        cases heq
        exact ⟨frequency.1,signalLevel.1,by simp [hb'],rfl,rfl⟩
      · intro heq
        cases item with
        | none => exact absurd rfl heq
        | some item =>
          obtain ⟨f,l,hfields,hfreq,hlevel⟩ := heq
          simp only [List.map_cons,List.map_nil,List.cons.injEq,and_true] at hfields
          obtain ⟨hbssid,hf,hl,hflags,hssid⟩ := hfields
          refine congrArg (fun item => Except.ok (some item)) (WifiScanItem.ext ?_ ?_ ?_ ?_ ?_)
          · exact Subtype.ext (hb'.trans hbssid)
          · rw [hfreq,hf]
          · rw [hlevel,hl]
          · exact Subtype.ext hflags
          · exact Subtype.ext hssid
  · rename_i hshape
    have hlen : fields.length ≠ 5 := by
      intro hlen
      match fields, hlen with
      | [a,b,c,d,e], _ => exact hshape a b c d e rfl
    constructor
    · intro heq
      cases heq
      rwa [IsItem,List.length_map]
    · intro heq
      cases item with
      | none => rfl
      | some item =>
        obtain ⟨f,l,hfields,-⟩ := heq
        have := congrArg List.length hfields
        rw [List.length_map] at this
        exact absurd this hlen

/-- A line is parsed if its fields fit the rows and the members of the item. -/
theorem getWifiScanItemFromLine_ok_iff {line : Bytes} {item : Option WifiScanItem} :
    getWifiScanItemFromLine line = .ok item ↔ (words (· == 9) line).length ≤ 5 ∧
      (∀ p ∈ words (· == 9) line, p.length ≤ 255) ∧ IsItem (words (· == 9) line) item := by
  unfold getWifiScanItemFromLine
  generalize words (· == 9) line = ps
  have hnil : ([] : List (CharArray 256)).length ≤ 5 := Nat.zero_le 5
  constructor
  · intro h
    cases hstore : storeFields [] ps with
    | error fault =>
      rw [hstore] at h
      cases h
    | ok fields =>
      rw [hstore] at h
      obtain ⟨hlen,hmap⟩ := (storeFields_ok_iff hnil).mp hstore
      rw [List.map_nil,List.nil_append] at hmap
      subst hmap
      refine ⟨by simpa using hlen,fun p hp => ?_,itemFromFields_ok_iff.mp h⟩
      obtain ⟨a,-,rfl⟩ := List.mem_map.mp hp
      exact Nat.le_of_lt_succ a.2
  · rintro ⟨hlen,hrows,hitem⟩
    obtain ⟨fields,rfl⟩ : ∃ fields : List (CharArray 256), fields.map Subtype.val = ps :=
      ⟨ps.attach.map fun p => ⟨p.1,Nat.lt_succ_of_le (hrows p.1 p.2)⟩,by simp⟩
    have hstore : storeFields [] (fields.map Subtype.val) = .ok fields :=
      (storeFields_ok_iff hnil).mpr ⟨by simpa using hlen,rfl⟩
    rw [hstore]
    exact itemFromFields_ok_iff.mpr hitem

/-- There is an item for the fields if they fit. -/
theorem exists_isItem_iff {fields : List Bytes} (hrows : ∀ p ∈ fields, p.length ≤ 255) :
    (∃ item, IsItem fields item) ↔
      (fields.length = 5 → ∀ bssid ∈ fields.head?, bssid.length ≤ 17) := by
  constructor
  · rintro ⟨item,h⟩ hlen bssid hbssid
    cases item with
    | none => exact absurd hlen h
    | some item =>
      obtain ⟨f,l,rfl,-⟩ := h
      cases hbssid
      exact Nat.le_of_lt_succ item.bssid.2
  · intro h
    by_cases hlen : fields.length = 5
    · match fields, hlen with
      | [a,b,c,d,e], hlen =>
        refine ⟨some ⟨⟨a,Nat.lt_succ_of_le (h hlen a rfl)⟩,atoi b,atoi c,
          ⟨d,Nat.lt_succ_of_le (hrows d (by simp))⟩,⟨e,Nat.lt_succ_of_le (hrows e (by simp))⟩⟩,
          b,c,rfl,rfl,rfl⟩
    · exact ⟨none,hlen⟩

theorem scanItemsFromLines_ok_iff {lines : List Bytes} {items : List WifiScanItem} :
    scanItemsFromLines lines = .ok items ↔ ∃ found : List (Option WifiScanItem),
      List.Forall₂ (fun line item => getWifiScanItemFromLine line = .ok item) lines found ∧
        items = found.flatMap Option.toList := by
  induction lines generalizing items with
  | nil =>
    rw [scanItemsFromLines,Except.ok.injEq]
    exact ⟨fun h => ⟨[],.nil,h.symm⟩,fun ⟨_,.nil,h⟩ => h.symm⟩
  | cons line lines ih =>
    rw [scanItemsFromLines]
    constructor
    · intro h
      cases hitem : getWifiScanItemFromLine line with
      | error fault =>
        rw [hitem] at h
        cases h
      | ok item =>
        cases hrest : scanItemsFromLines lines with
        | error fault =>
          rw [hitem,hrest] at h
          cases h
        | ok rest =>
          rw [hitem,hrest] at h
          cases h
          obtain ⟨found,hfound,rfl⟩ := ih.mp hrest
          exact ⟨item :: found,.cons hitem hfound,rfl⟩
    · rintro ⟨found,hfound,rfl⟩
      cases hfound with
      | cons hitem hfound =>
        rw [hitem,ih.mpr ⟨_,hfound,rfl⟩]
        rfl

/-- Lines can be parsed if the fields of each of them fit. -/
theorem exists_scanItemsFromLines_iff {lines : List Bytes} :
    (∃ items, scanItemsFromLines lines = .ok items) ↔
      ∀ line ∈ lines, FieldsFit (words (· == 9) line) := by
  constructor
  · rintro ⟨items,h⟩ line hline
    obtain ⟨found,hfound,-⟩ := scanItemsFromLines_ok_iff.mp h
    obtain ⟨i,hi,rfl⟩ := List.mem_iff_getElem.mp hline
    have hitem := hfound.get hi (hfound.length_eq ▸ hi)
    obtain ⟨hlen,hrows,his⟩ := getWifiScanItemFromLine_ok_iff.mp hitem
    exact ⟨hlen,hrows,(exists_isItem_iff hrows).mp ⟨_,his⟩⟩
  · intro h
    induction lines with
    | nil => exact ⟨[],rfl⟩
    | cons line lines ih =>
      obtain ⟨items,hitems⟩ := ih fun line hline => h line (List.mem_cons_of_mem _ hline)
      obtain ⟨hlen,hrows,hbssid⟩ := h line List.mem_cons_self
      obtain ⟨item,his⟩ := (exists_isItem_iff hrows).mpr hbssid
      have hitem := getWifiScanItemFromLine_ok_iff.mpr ⟨hlen,hrows,his⟩
      refine ⟨item.toList ++ items,?_⟩
      rw [scanItemsFromLines,hitem,hitems]
      rfl

end Parser

section Replies
variable (cfg : BuildConfig) {w : Wrapper D} {conn : Conn D} (h : On w conn)
include h

/-- A command that asks, with a buffer of 4096 bytes. -/
theorem execute_ask {cmd : CString} {text : Bytes} (hl : cmd.bytes.length < 1024)
    (ho : ¬ Overfills kMaxArgs cmd.bytes)
    (hc : commandOf cfg (lineWords cmd.bytes) = ⟨none,.ask text,false⟩) : ∃ r,
      wpaCliExecute cfg w cmd (List.replicate 4096 0) = .ok r ∧
        On r.wrapper (conn.exchange (takes 1) text).1 ∧
          match (conn.exchange (takes 1) text).2.2 with
          | .got d => ¬ r.ret < 0 ∧ cstr r.buf = cstr (d.take 4095)
          | _ => r.ret < 0 := by
  have hlen : (List.replicate 4096 (0 : UInt8)).length = 4096 := List.length_replicate
  generalize List.replicate 4096 (0 : UInt8) = buf at hlen
  rw [wpaCliExecute_eq cfg h.initialized hl ho,hc]
  obtain ⟨r,networks,out,hr,hw,hret,hbuf⟩ := Command.run_connected ⟨none,.ask text,false⟩
    h.connected h.sized (show 0 < buf.length by omega)
  have hfirst : Command.first ⟨none,.ask text,false⟩ buf.length conn =
      conn.exchange (takes 1) text := by
    simp only [Command.first,Command.request,hlen]
    rw [takes_eq (show 0 < 4096-1 by decide)]
  rw [hfirst] at hw hret hbuf
  refine ⟨r,hr,?_,?_⟩
  · rw [hw]
    exact ⟨h.initialized,rfl,(h.sized.exchange 1 text).1⟩
  · cases hx : (conn.exchange (takes 1) text).2.2 with
    | got d =>
      have hret : r.ret = 0 := by rw [hret,hx]; rfl
      have hcstr := (hbuf.2 d hx).cstr_eq
      rw [hlen] at hcstr
      exact ⟨by omega,hcstr⟩
    | unsent => exact (by rw [hret,hx]; exact (by decide : (-1 : ℤ) < 0))
    | failed => exact (by rw [hret,hx]; exact (by decide : (-1 : ℤ) < 0))
    | silence => exact (by rw [hret,hx]; exact (by decide : (-2 : ℤ) < 0))

theorem scan_ask : ∃ r,
    wpaCliExecute cfg w ⟨ascii "scan",by decide⟩ (List.replicate 4096 0) = .ok r ∧
      On r.wrapper (conn.exchange (takes 1) (ascii "SCAN")).1 ∧
        match (conn.exchange (takes 1) (ascii "SCAN")).2.2 with
        | .got d => ¬ r.ret < 0 ∧ cstr r.buf = cstr (d.take 4095)
        | _ => r.ret < 0 := by
  refine execute_ask cfg h (by decide) (by decide) ?_
  have hwords : lineWords (ascii "scan") = [ascii "scan"] := by decide
  have hsel : selectCommand cfg (ascii "scan") = .found ⟨ascii "scan",.scan,.scan⟩ :=
    selectCommand_exact cfg (by decide)
  rw [hwords]
  simp only [commandOf,stripIfname,hsel]
  rfl

theorem scan_results_ask : ∃ r,
    wpaCliExecute cfg w ⟨ascii "scan_results",by decide⟩ (List.replicate 4096 0) = .ok r ∧
      On r.wrapper (conn.exchange (takes 1) (ascii "SCAN_RESULTS")).1 ∧
        match (conn.exchange (takes 1) (ascii "SCAN_RESULTS")).2.2 with
        | .got d => ¬ r.ret < 0 ∧ cstr r.buf = cstr (d.take 4095)
        | _ => r.ret < 0 := by
  refine execute_ask cfg h (by decide) (by decide) ?_
  have hwords : lineWords (ascii "scan_results") = [ascii "scan_results"] := by decide
  have hsel : selectCommand cfg (ascii "scan_results") =
      .found ⟨ascii "scan_results",.scanResults,.scanResults⟩ := selectCommand_exact cfg (by decide)
  rw [hwords]
  simp only [commandOf,stripIfname,hsel]
  rfl

end Replies

/-- The text that is left to the parser once the daemon has answered both requests. -/
def scanText (conn : Conn D) : Option Bytes :=
  let scan := conn.exchange (takes 1) (ascii "SCAN")
  match scan.2.2 with
  | .got reply =>
    if hasPrefixCase (cstr (reply.take 4095)) (ascii "OK") then
      match (scan.1.exchange (takes 1) (ascii "SCAN_RESULTS")).2.2 with
      | .got text => some (cstr (text.take 4095))
      | _ => none
    else none
  | _ => none

theorem scanItems_congr {buf text : Bytes} (h : cstr buf = cstr text) :
    scanItems buf = scanItems (cstr text) := by
  unfold scanItems
  rw [h,cstr_eq_self (cstr_noNul text)]

theorem getWifiScanResults_eq (cfg : BuildConfig) {w : Wrapper D} {conn : Conn D} (h : On w conn) :
    ∃ w', getWifiScanResults cfg w = match scanText conn with
      | none => .ok (w',none)
      | some text => ((scanItems text).mapError .parse).map fun items => (w',some items) := by
  obtain ⟨r,hr,hon,hmatch⟩ := scan_ask cfg h
  unfold getWifiScanResults scanText
  rw [hr]
  dsimp only [Except.mapError,bind,Except.bind]
  cases hx : (conn.exchange (takes 1) (ascii "SCAN")).2.2 with
  | got reply =>
    rw [hx] at hmatch
    obtain ⟨hret,hcstr⟩ := hmatch
    rw [if_neg hret,hcstr]
    dsimp only
    cases hok : hasPrefixCase (cstr (reply.take 4095)) (ascii "OK") with
    | false => exact ⟨r.wrapper,rfl⟩
    | true =>
      obtain ⟨r₂,hr₂,-,hmatch₂⟩ := scan_results_ask cfg hon
      rw [hr₂]
      dsimp only
      cases hx₂ : ((conn.exchange (takes 1) (ascii "SCAN")).1.exchange (takes 1)
        (ascii "SCAN_RESULTS")).2.2 with
      | got text =>
        rw [hx₂] at hmatch₂
        obtain ⟨hret₂,hcstr₂⟩ := hmatch₂
        refine ⟨r₂.wrapper,?_⟩
        rw [if_neg hret₂,scanItems_congr hcstr₂]
        simp only [Bool.not_true,Bool.false_eq_true,if_false,if_true]
        cases scanItems (cstr (text.take 4095)) <;> rfl
      | unsent =>
        rw [hx₂] at hmatch₂
        exact ⟨r₂.wrapper,if_pos hmatch₂⟩
      | failed =>
        rw [hx₂] at hmatch₂
        exact ⟨r₂.wrapper,if_pos hmatch₂⟩
      | silence =>
        rw [hx₂] at hmatch₂
        exact ⟨r₂.wrapper,if_pos hmatch₂⟩
  | unsent =>
    rw [hx] at hmatch
    exact ⟨r.wrapper,if_pos hmatch⟩
  | failed =>
    rw [hx] at hmatch
    exact ⟨r.wrapper,if_pos hmatch⟩
  | silence =>
    rw [hx] at hmatch
    exact ⟨r.wrapper,if_pos hmatch⟩

theorem scanText_eq_cstr {conn : Conn D} {text : Bytes} (h : scanText conn = some text) :
    ∃ t, text = cstr t := by
  unfold scanText at h
  dsimp only at h
  split at h
  · split at h
    · split at h
      · exact ⟨_,(Option.some.inj h).symm⟩
      · cases h
    · cases h
  · cases h

/-- Whatever the daemon sends, the parser stays inside its arrays exactly if the fields of each
line fit. -/
theorem getWifiScanResults_inside_iff (cfg : BuildConfig) {w : Wrapper D} {conn : Conn D}
    (h : On w conn) : (∃ r, getWifiScanResults cfg w = .ok r) ↔ ∀ text ∈ scanText conn,
      ∀ line ∈ words (· == 10) text, FieldsFit (words (· == 9) line) := by
  obtain ⟨w',heq⟩ := getWifiScanResults_eq cfg h
  rw [heq]
  cases htext : scanText conn with
  | none => simp
  | some text =>
    have hself : cstr text = text := by
      obtain ⟨t,rfl⟩ := scanText_eq_cstr htext
      exact cstr_eq_self (cstr_noNul t)
    have hiff : (∃ items, scanItems text = .ok items) ↔
        ∀ line ∈ words (· == 10) text, FieldsFit (words (· == 9) line) := by
      rw [scanItems,hself]
      exact exists_scanItemsFromLines_iff
    simp only [Option.mem_def,Option.some.injEq,forall_eq']
    rw [← hiff]
    cases scanItems text with
    | error fault => exact iff_of_false (fun ⟨_,h⟩ => by cases h) fun ⟨_,h⟩ => by cases h
    | ok items => exact iff_of_true ⟨_,rfl⟩ ⟨_,rfl⟩

theorem okReply_short : (ascii "OK\n").length < replySize := by decide

section Delivered
variable {text : Bytes} (h : text.length < replySize)

/-- The connection on which a scan is started and a text is its result. -/
def scanConn : Conn anyDaemon :=
  ⟨(),[],[],[],Link.promptly (show anyDaemon.Choice from ⟨ascii "OK\n",okReply_short⟩) ++
    Link.promptly (show anyDaemon.Choice from ⟨text,h⟩)⟩

theorem scanConn_on : On (.connected (scanConn h)) (scanConn h) := ⟨rfl,rfl,fun _ hr => by cases hr⟩

/-- Any text that is not taken for an event reaches the parser. -/
theorem scanText_scanConn (hhead : text.head? ≠ some 60) :
    scanText (scanConn h) = some (cstr text) := by
  have htakes : takes 1 text = true := by
    cases text with
    | nil => rfl
    | cons c text => simpa [takes] using hhead
  have hfirst : (scanConn h).exchange (takes 1) (ascii "SCAN") =
      (⟨(),[(ascii "SCAN",ascii "OK\n")],[],[],Link.promptly (show anyDaemon.Choice from ⟨text,h⟩)⟩,
        [],.got (ascii "OK\n")) := rfl
  have hok : hasPrefixCase (cstr ((ascii "OK\n").take 4095)) (ascii "OK") := by decide
  have htake : text.take 4095 = text := List.take_of_length_le (Nat.le_of_lt_succ h)
  rw [scanText]
  simp only [hfirst,hok,if_true]
  have hsecond : Link.exchange (takes 1) (ascii "SCAN_RESULTS") (⟨(),[(ascii "SCAN",ascii "OK\n")],
      [],[],Link.promptly (show anyDaemon.Choice from ⟨text,h⟩)⟩ : Conn anyDaemon) =
        (⟨(),[(ascii "SCAN",ascii "OK\n"),(ascii "SCAN_RESULTS",text)],[],[],[]⟩,[],.got text) := by
    have hgot := Link.await_got (L := (⟨(),[(ascii "SCAN",ascii "OK\n"),
      (ascii "SCAN_RESULTS",text)],[],[text],[]⟩ : Conn anyDaemon)) (List.nil_append _).symm
      (fun _ hx => by cases hx) htakes []
    change Link.await (takes 1) [.serve (show anyDaemon.Choice from ⟨text,h⟩)]
      (⟨(),[(ascii "SCAN",ascii "OK\n")],[ascii "SCAN_RESULTS"],[],[]⟩ : Conn anyDaemon) = _
    rw [Link.await_cons (fun _ hr => by cases hr) _ _ (by simp)]
    exact Prod.ext (congrArg Prod.fst hgot) (congrArg Prod.snd hgot)
  rw [hsecond]
  dsimp only
  rw [htake]

end Delivered

theorem six_short : (ascii "a\tb\tc\td\te\tf\n").length < replySize := by decide

/-- A line with a sixth field. -/
theorem getWifiScanResults_six :
    ¬ ∃ r, getWifiScanResults (fun _ => false) (.connected (scanConn six_short)) = .ok r := by
  obtain ⟨w',heq⟩ := getWifiScanResults_eq (fun _ => false) (scanConn_on six_short)
  rw [heq,scanText_scanConn six_short (by decide)]
  have hfault : scanItems (cstr (ascii "a\tb\tc\td\te\tf\n")) = .error .fieldCount := by rfl
  dsimp only
  rw [hfault]
  rintro ⟨r,hr⟩
  cases hr

theorem cafe_short :
    (ascii "00:11:22:33:44:55\t2412\t-40\t[ESS]\tcafe\n").length < replySize := by decide

theorem getWifiScanResults_cafe :
    ∃ r, getWifiScanResults (fun _ => false) (.connected (scanConn cafe_short)) = .ok r := by
  refine (getWifiScanResults_inside_iff _ (scanConn_on cafe_short)).mpr ?_
  rw [scanText_scanConn cafe_short (by decide)]
  have hlines : words (· == 10) (cstr (ascii "00:11:22:33:44:55\t2412\t-40\t[ESS]\tcafe\n")) =
      [ascii "00:11:22:33:44:55\t2412\t-40\t[ESS]\tcafe"] := by decide
  have hfields : words (· == 9) (ascii "00:11:22:33:44:55\t2412\t-40\t[ESS]\tcafe") =
      [ascii "00:11:22:33:44:55",ascii "2412",ascii "-40",ascii "[ESS]",ascii "cafe"] := by decide
  simp only [Option.mem_def,Option.some.injEq,forall_eq',hlines,List.mem_singleton,forall_eq,hfields]
  refine ⟨by decide,by decide,fun _ bssid hbssid => ?_⟩
  cases hbssid
  decide

end WpaCliWrapper
