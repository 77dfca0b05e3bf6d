import WpaCliWrapper.Common.Cli
import WpaCliWrapper.CText.Substring
import WpaCliWrapper.Exchange.Announced
import WpaCliWrapper.Supplicant.CtrlIface
import WpaCliWrapper.Supplicant.ScanResults
import WpaCliWrapper.Utils.Hex
import WpaCliWrapper.Wrapper.Commands

/-! The lists of `cli_event` for the completion of commands, and the list of BSSIDs beside the table
of BSSs that the daemon announces. -/
namespace WpaCliWrapper
open CText Exchange

section Lists

/-- `cli_txt_list_del` -/
def cliTxtListDel (l : List Bytes) (txt : Bytes) : List Bytes := l.erase txt

/-- `cli_txt_list_del_addr`: the text is normalised. -/
def cliTxtListDelAddr (l : List Bytes) (txt : Bytes) : List Bytes :=
  (hwaddrAton txt).elim l fun addr => cliTxtListDel l (macStr addr)

def cliTxtListAddAddr (l : List Bytes) (txt : Bytes) : List Bytes :=
  (hwaddrAton txt).elim l fun addr => cliTxtListAdd l (macStr addr)

/-- `cli_txt_list_del_word` -/
def cliTxtListDelWord (l : List Bytes) (txt : Bytes) (separator : UInt8) : List Bytes :=
  cliTxtListDel l (txt.takeWhile (· != separator))

/-- The lists that `cli_event` changes. -/
structure CliLists where
  bsses : List Bytes
  p2pPeers : List Bytes
  p2pGroups : List Bytes

def wpaEventBssAdded : Bytes := ascii "CTRL-EVENT-BSS-ADDED "
def wpaEventBssRemoved : Bytes := ascii "CTRL-EVENT-BSS-REMOVED "
def p2pEventDeviceFound : Bytes := ascii "P2P-DEVICE-FOUND "
def p2pEventDeviceLost : Bytes := ascii "P2P-DEVICE-LOST "
def p2pEventGroupStarted : Bytes := ascii "P2P-GROUP-STARTED "
def p2pEventGroupRemoved : Bytes := ascii "P2P-GROUP-REMOVED "

/-- `str_starts` -/
def strStarts (str start : Bytes) : Bool := start.isPrefixOf str

/-- The text behind the second blank. -/
def behindId (start : Bytes) : Option Bytes := do
  let (_,s) ← splitBlank start
  let (_,txt) ← splitBlank s
  return txt

/-- The text behind ` p2p_dev_addr=`. -/
def p2pDevAddr (start : Bytes) : Option Bytes :=
  (strstr (ascii " p2p_dev_addr=") start).map fun s => start.drop (s+14)

def cliEvent (cfg : BuildConfig) (l : CliLists) (str : Bytes) : CliLists :=
  match str.dropWhile (· != 62) with
  | [] => l
  | _ :: start =>
    if strStarts start wpaEventBssAdded then
      (behindId start).elim l fun txt => { l with bsses := cliTxtListAdd l.bsses txt }
    else if strStarts start wpaEventBssRemoved then
      (behindId start).elim l fun txt => { l with bsses := cliTxtListDelAddr l.bsses txt }
    else if !cfg .p2p then l
    else if strStarts start p2pEventDeviceFound then
      (p2pDevAddr start).elim l fun txt => { l with p2pPeers := cliTxtListAddAddr l.p2pPeers txt }
    else if strStarts start p2pEventDeviceLost then
      (p2pDevAddr start).elim l fun txt => { l with p2pPeers := cliTxtListDelAddr l.p2pPeers txt }
    else if strStarts start p2pEventGroupStarted then
      (splitBlank start).elim l fun (_,txt) =>
        { l with p2pGroups := cliTxtListAddWord l.p2pGroups txt 32 }
    else if strStarts start p2pEventGroupRemoved then
      (splitBlank start).elim l fun (_,txt) =>
        { l with p2pGroups := cliTxtListDelWord l.p2pGroups txt 32 }
    else l

end Lists

section Table

/-- `struct wpa_bss`, as far as the table is kept by it. -/
structure BssEntry where
  id : ℕ
  bssid : Vector UInt8 6
  ssid : Bytes
  deriving DecidableEq

def BssEntry.txt (bss : BssEntry) : Bytes := macStr bss.bssid.toList

/-- What `wpas_notify_bss_added` and `wpas_notify_bss_removed` send at the level of information. -/
def bssMessage : Change BssEntry → Bytes
  | .added bss => ascii "<3>" ++ (wpaEventBssAdded ++ (decimalNat bss.id ++ 32 :: bss.txt))
  | .removed bss => ascii "<3>" ++ (wpaEventBssRemoved ++ (decimalNat bss.id ++ 32 :: bss.txt))

example : bssMessage (.added ⟨7,#v[2,0,0,0,0,0xa1],[]⟩) =
    ascii "<3>CTRL-EVENT-BSS-ADDED 7 02:00:00:00:00:a1" := by decide

end Table

section Step

theorem hwaddrAton_txt (bss : BssEntry) : hwaddrAton bss.txt = some bss.bssid.toList := by
  have hlen : bss.bssid.toList.length = ethAlen := Vector.length_toList
  have hne : bss.bssid.toList ≠ [] := fun h => by
    rw [h] at hlen
    cases hlen
  have hparse := hwaddrParse_byteDigits hne []
  rw [List.append_nil,hlen] at hparse
  have htxt : bss.txt = [58].intercalate (bss.bssid.toList.map byteDigits) := rfl
  rw [hwaddrAton,htxt,hparse]
  rfl

theorem txt_inj {bss bss' : BssEntry} (h : bss.txt = bss'.txt) : bss.bssid = bss'.bssid := by
  have haddr := hwaddrAton_txt bss
  rw [h,hwaddrAton_txt bss'] at haddr
  exact (Vector.toList_inj.mp (Option.some.inj haddr)).symm

/-- A message of the daemon names its event with a blank behind it. -/
theorem behindId_eq {event : Bytes} (hevent : 32 ∉ event) (id : ℕ) (txt : Bytes) :
    behindId (event ++ [32] ++ (decimalNat id ++ 32 :: txt)) = some txt := by
  rw [List.append_assoc,List.singleton_append]
  have hid : 32 ∉ decimalNat id := fun h => absurd (decimalNat_isDigit h) (by decide)
  simp only [behindId,splitBlank_append hevent,splitBlank_append hid,Option.bind_eq_bind,
    Option.bind_some]
  rfl

theorem strStarts_append (event rest : Bytes) : strStarts (event ++ rest) event :=
  List.isPrefixOf_iff_prefix.mpr (List.prefix_append _ _)

/-- The level in front of an event is skipped. -/
theorem dropWhile_level (event : Bytes) :
    (ascii "<3>" ++ event).dropWhile (· != 62) = 62 :: event := rfl

theorem cliTxtListAdd_eq_insert (l : List Bytes) (txt : Bytes) :
    cliTxtListAdd l txt = l.insert txt := by
  by_cases h : txt ∈ l
  · rw [cliTxtListAdd,if_pos h,List.insert_of_mem h]
  · rw [cliTxtListAdd,if_neg h,List.insert_of_not_mem h]

/-- What a message does to the list of BSSIDs. -/
theorem cliEvent_bssMessage (cfg : BuildConfig) (l : CliLists) (c : Change BssEntry) :
    cliEvent cfg l (bssMessage c) = { l with bsses := c.hear BssEntry.txt l.bsses } := by
  cases c with
  | added bss =>
    have hbehind : behindId (wpaEventBssAdded ++ (decimalNat bss.id ++ 32 :: bss.txt)) =
        some bss.txt :=
      behindId_eq (show 32 ∉ ascii "CTRL-EVENT-BSS-ADDED" by decide) bss.id bss.txt
    rw [bssMessage,cliEvent,dropWhile_level]
    dsimp only
    rw [if_pos (strStarts_append _ _),hbehind]
    change { l with bsses := cliTxtListAdd l.bsses bss.txt } = _
    rw [cliTxtListAdd_eq_insert]
    rfl
  | removed bss =>
    have hbehind : behindId (wpaEventBssRemoved ++ (decimalNat bss.id ++ 32 :: bss.txt)) =
        some bss.txt :=
      behindId_eq (show 32 ∉ ascii "CTRL-EVENT-BSS-REMOVED" by decide) bss.id bss.txt
    have hother : strStarts (wpaEventBssRemoved ++ (decimalNat bss.id ++ 32 :: bss.txt))
        wpaEventBssAdded = false := rfl
    rw [bssMessage,cliEvent,dropWhile_level]
    dsimp only
    rw [if_neg (by rw [hother]; exact Bool.false_ne_true),if_pos (strStarts_append _ _),hbehind]
    change { l with bsses := cliTxtListDelAddr l.bsses bss.txt } = _
    rw [cliTxtListDelAddr,hwaddrAton_txt]
    rfl

end Step

section Runs

/-- The lists after some messages of the daemon. -/
def cliRun (cfg : BuildConfig) (l : CliLists) (changes : List (Change BssEntry)) : CliLists :=
  (changes.map bssMessage).foldl (cliEvent cfg) l

/-- The entries that are present after some changes of the table. -/
def present (table : List BssEntry) (changes : List (Change BssEntry)) : List BssEntry :=
  Change.after BssEntry.id table changes

/-- The list has the addresses of the entries that are present and nothing else, each once. -/
structure Follows (bsses : List Bytes) (table : List BssEntry) : Prop where
  nodup : bsses.Nodup
  mem : ∀ addr : Vector UInt8 6,
    macStr addr.toList ∈ bsses ↔ ∃ bss ∈ table, bss.bssid = addr
  address : ∀ txt ∈ bsses, ∃ addr : Vector UInt8 6, txt = macStr addr.toList

theorem follows_iff {bsses : List Bytes} {table : List BssEntry} :
    Follows bsses table ↔ Change.Mirrors BssEntry.txt bsses table := by
  constructor
  · intro h
    refine ⟨h.nodup,fun txt => ⟨fun hmem => ?_,?_⟩⟩
    · obtain ⟨addr,rfl⟩ := h.address txt hmem
      obtain ⟨bss,hbss,rfl⟩ := (h.mem addr).mp hmem
      exact ⟨bss,hbss,rfl⟩
    · rintro ⟨bss,hbss,rfl⟩
      exact (h.mem bss.bssid).mpr ⟨bss,hbss,rfl⟩
  · intro h
    refine ⟨h.nodup,fun addr => ?_,fun txt hmem => ?_⟩
    · rw [h.mem]
      constructor
      · rintro ⟨bss,hbss,htxt⟩
        have haddr : bss.txt = BssEntry.txt ⟨0,addr,[]⟩ := htxt
        exact ⟨bss,hbss,txt_inj haddr⟩
      · rintro ⟨bss,hbss,rfl⟩
        exact ⟨bss,hbss,rfl⟩
    · obtain ⟨bss,-,rfl⟩ := (h.mem txt).mp hmem
      exact ⟨bss.bssid,rfl⟩

theorem cliRun_bsses (cfg : BuildConfig) (l : CliLists) (changes : List (Change BssEntry)) :
    (cliRun cfg l changes).bsses = Change.heard BssEntry.txt l.bsses changes := by
  induction changes generalizing l with
  | nil => rfl
  | cons c changes ih =>
    change (cliRun cfg (cliEvent cfg l (bssMessage c)) changes).bsses = _
    rw [ih,cliEvent_bssMessage]
    rfl

/-- The list follows the table all the time exactly if no entry is removed while another one with its
BSSID is present. -/
theorem bsses_follow_iff (cfg : BuildConfig) {l : CliLists} {table : List BssEntry}
    {changes : List (Change BssEntry)} (hstart : Follows l.bsses table)
    (hids : Change.Distinct BssEntry.id table)
    (hrun : Change.PossibleRun BssEntry.id table changes) :
    (∀ n : ℕ, Follows (cliRun cfg l (changes.take n)).bsses (present table (changes.take n))) ↔
      ∀ (n : ℕ) (bss : BssEntry), changes[n]? = some (.removed bss) →
        ∀ x ∈ present table (changes.take n), x.bssid = bss.bssid → x.id = bss.id := by
  have hall := Change.mirrors_run_iff (follows_iff.mp hstart) hids hrun
  have hfollow : (∀ n : ℕ, Follows (cliRun cfg l (changes.take n)).bsses
      (present table (changes.take n))) ↔ ∀ n : ℕ, Change.Mirrors BssEntry.txt
        (Change.heard BssEntry.txt l.bsses (changes.take n))
        (Change.after BssEntry.id table (changes.take n)) := by
    refine forall_congr' fun n => ?_
    rw [cliRun_bsses,follows_iff]
    rfl
  rw [hfollow,hall]
  constructor
  · intro h n bss hn x hx haddr
    refine h n (.removed bss) hn x hx ?_
    rw [BssEntry.txt,BssEntry.txt,haddr]
  · intro h n c hn
    cases c with
    | added bss => trivial
    | removed bss => exact fun x hx htxt => h n bss hn x hx (txt_inj htxt)

end Runs

/-- Two networks of one access point. -/
def firstNetwork : BssEntry := ⟨0,#v[2,0,0,0,0,1],ascii "one"⟩
def secondNetwork : BssEntry := ⟨1,#v[2,0,0,0,0,1],ascii "two"⟩

theorem follows_empty : Follows [] [] := ⟨List.nodup_nil,by simp,by simp⟩

/-- The first network is gone before the second one comes. -/
theorem bsses_follow_sole :
    present [] [.added firstNetwork,.removed firstNetwork,.added secondNetwork] =
      [secondNetwork] ∧
    ∀ n : ℕ, Follows (cliRun (fun _ => false) ⟨[],[],[]⟩ ([Change.added firstNetwork,
        .removed firstNetwork,.added secondNetwork].take n)).bsses
      (present [] ([Change.added firstNetwork,.removed firstNetwork,
        .added secondNetwork].take n)) := by
  have hrun : Change.PossibleRun BssEntry.id []
      [Change.added firstNetwork,.removed firstNetwork,.added secondNetwork] :=
    ⟨by simp [Change.Possible],List.mem_singleton.mpr rfl,by simp [Change.Possible,Change.apply],
      trivial⟩
  refine ⟨by decide +kernel,(bsses_follow_iff (fun _ => false) follows_empty
    (fun x hx => by simp at hx) hrun).mpr ?_⟩
  intro n bss hn x hx haddr
  match n with
  | 0 => cases hn
  | 1 =>
    cases hn
    rw [List.mem_singleton.mp hx]
  | 2 => cases hn
  | n+3 => cases hn

/-- The second network is still there when the first one is removed, and its BSSID is not listed any
more. -/
theorem bsses_not_follow :
    Change.PossibleRun BssEntry.id []
      [Change.added firstNetwork,.added secondNetwork,.removed firstNetwork] ∧
    (cliRun (fun _ => false) ⟨[],[],[]⟩
      [.added firstNetwork,.added secondNetwork,.removed firstNetwork]).bsses = [] ∧
    present [] [.added firstNetwork,.added secondNetwork,.removed firstNetwork] =
      [secondNetwork] ∧
    ¬ Follows (cliRun (fun _ => false) ⟨[],[],[]⟩
        [.added firstNetwork,.added secondNetwork,.removed firstNetwork]).bsses
      (present [] [.added firstNetwork,.added secondNetwork,.removed firstNetwork]) := by
  have hlist : (cliRun (fun _ => false) ⟨[],[],[]⟩
      [.added firstNetwork,.added secondNetwork,.removed firstNetwork]).bsses = [] := by
    decide +kernel
  have htable : present [] [.added firstNetwork,.added secondNetwork,.removed firstNetwork] =
      [secondNetwork] := by decide +kernel
  have hids : firstNetwork.id ≠ secondNetwork.id := by decide
  refine ⟨⟨by simp [Change.Possible],by simpa [Change.Possible,Change.apply] using hids,
    List.mem_cons_self,trivial⟩,hlist,htable,fun h => ?_⟩
  rw [hlist,htable] at h
  have hmem := (h.mem secondNetwork.bssid).mpr ⟨secondNetwork,List.mem_singleton.mpr rfl,rfl⟩
  cases hmem

end WpaCliWrapper
