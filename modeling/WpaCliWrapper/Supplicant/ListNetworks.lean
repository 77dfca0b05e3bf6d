import WpaCliWrapper.Supplicant.ScanResults

/-! The reply to `LIST_NETWORKS`: a header, and a line for each configured network as long as the
lines fit the buffer. -/
namespace WpaCliWrapper
open CText

/-- What the reply shows of a `struct wpa_ssid`: `ssid` is NULL until it is set, `bssid` is there if
`bssid_set`, and `current` says whether `wpa_s->current_ssid` points to it. -/
structure SsidEntry where
  id : ℤ
  ssid : Option Bytes
  bssid : Option (Vector UInt8 6)
  current : Bool
  disabled : ℤ
  disabledUntil : ℤ

/-- `wpa_ssid_txt` -/
def wpaSsidTxt (ssid : Option Bytes) : Bytes := ssid.elim [] (printfEncode (4*ssidMaxLen+1))

namespace SsidEntry

def headTxt (ssid : SsidEntry) : Bytes := decimal ssid.id ++ 9 :: wpaSsidTxt ssid.ssid

def bssidTxt (ssid : SsidEntry) : Bytes :=
  9 :: ssid.bssid.elim (ascii "any") fun bssid => macStr bssid.toList

def flagsTxt (ssid : SsidEntry) : Bytes :=
  9 :: ((if ssid.current then ascii "[CURRENT]" else []) ++
    (if ssid.disabled ≠ 0 then ascii "[DISABLED]" else []) ++
    (if ssid.disabledUntil ≠ 0 then ascii "[TEMP-DISABLED]" else []) ++
    (if ssid.disabled = 2 then ascii "[P2P-PERSISTENT]" else []))

/-- The four pieces of a line, each behind the text so far. -/
def putLine (buflen : ℕ) (ssid : SsidEntry) (txt : Bytes) : Except Bytes Bytes := do
  let txt ← put buflen txt ssid.headTxt
  let txt ← put buflen txt ssid.bssidTxt
  let txt ← put buflen txt ssid.flagsTxt
  put buflen txt [10]

/-- The line without its end. -/
def text (ssid : SsidEntry) : Bytes := ssid.headTxt ++ (ssid.bssidTxt ++ ssid.flagsTxt)

def line (ssid : SsidEntry) : Bytes := ssid.text ++ [10]

end SsidEntry

def listHeader : Bytes := ascii "network id / ssid / bssid / flags"

/-- With `LAST_ID=` the networks up to that id at the front of the list are skipped. -/
def afterLastId (cmd : Option Bytes) (ssids : List SsidEntry) : List SsidEntry :=
  match cmd with
  | none => ssids
  | some cmd =>
    if (ascii "LAST_ID=").isPrefixOf cmd then
      let lastId := atoi (cmd.drop 8)
      if lastId ≠ -1 then ssids.dropWhile (·.id ≤ lastId) else ssids
    else ssids

section Reply
variable (buflen : ℕ)

/-- A line that does not fit is left out, and so are all lines behind it. -/
def listNetworksLoop : List SsidEntry → Bytes → Bytes
  | [], txt => txt
  | ssid :: rest, prev =>
    match ssid.putLine buflen prev with
    | .error _ => prev
    | .ok txt => listNetworksLoop rest txt

def ctrlIfaceListNetworks (cmd : Option Bytes) (ssids : List SsidEntry) : Bytes :=
  match put buflen [] (listHeader ++ [10]) with
  | .error _ => []
  | .ok txt => listNetworksLoop buflen (afterLastId cmd ssids) txt

/-- The networks whose lines fit behind `used` bytes, one after the other. -/
def listed : ℕ → List SsidEntry → List SsidEntry
  | _, [] => []
  | used, ssid :: rest =>
    if used+ssid.line.length < buflen then ssid :: listed (used+ssid.line.length) rest else []

/-- The networks that have a line in the reply. -/
def listedNetworks (cmd : Option Bytes) (ssids : List SsidEntry) : List SsidEntry :=
  listed buflen (listHeader.length+1) (afterLastId cmd ssids)

variable {buflen}

/-- Two pieces fit one after the other if they fit as one. -/
theorem put_put (txt a : Bytes) (f : Bytes → Except Bytes Bytes) (b : Bytes)
    (hf : ∀ txt, (f txt).toOption = (put buflen txt b).toOption) :
    (put buflen txt a >>= f).toOption = (put buflen txt (a ++ b)).toOption := by
  have happ : txt.length+(a ++ b).length = (txt ++ a).length+b.length := by simp [Nat.add_assoc]
  by_cases ha : txt.length+a.length < buflen
  · have hput : put buflen txt a = .ok (txt ++ a) := if_pos ha
    rw [hput]
    change (f (txt ++ a)).toOption = _
    rw [hf,put,put,happ,List.append_assoc]
    split <;> rfl
  · have hput : put buflen txt a = .error txt := if_neg ha
    have hlen : ¬ txt.length+(a ++ b).length < buflen := by
      rw [List.length_append]
      omega
    rw [hput,put,if_neg hlen]
    rfl

/-- A line is written as a whole or not at all. -/
theorem SsidEntry.putLine_eq (ssid : SsidEntry) (txt : Bytes) :
    (ssid.putLine buflen txt).toOption =
      if txt.length+ssid.line.length < buflen then some (txt ++ ssid.line) else none := by
  have hflags : ∀ txt, (put buflen txt ssid.flagsTxt >>= (put buflen · [10])).toOption =
      (put buflen txt (ssid.flagsTxt ++ [10])).toOption := fun txt => put_put txt _ _ _ fun _ => rfl
  have hbssid := fun txt => put_put txt ssid.bssidTxt _ _ hflags
  have hline : ssid.line = ssid.headTxt ++ (ssid.bssidTxt ++ (ssid.flagsTxt ++ [10])) := by
    simp only [line,text,List.append_assoc]
  refine (put_put txt ssid.headTxt _ _ hbssid).trans ?_
  rw [← hline,put]
  split <;> rfl

theorem listNetworksLoop_eq (ssids : List SsidEntry) (txt : Bytes) :
    listNetworksLoop buflen ssids txt =
      txt ++ (listed buflen txt.length ssids).flatMap SsidEntry.line := by
  induction ssids generalizing txt with
  | nil => exact (List.append_nil txt).symm
  | cons ssid rest ih =>
    have hline : (ssid.putLine buflen txt).toOption = _ := ssid.putLine_eq txt
    rw [listNetworksLoop,listed]
    split at hline
    · rename_i hfit
      cases hput : ssid.putLine buflen txt with
      | error s =>
        rw [hput] at hline
        cases hline
      | ok s =>
        rw [hput] at hline
        cases hline
        dsimp only
        rw [if_pos hfit,ih,List.length_append,List.flatMap_cons,List.append_assoc]
    · rename_i hfit
      cases hput : ssid.putLine buflen txt with
      | error s => rw [if_neg hfit,List.flatMap_nil,List.append_nil]
      | ok s =>
        rw [hput] at hline
        cases hline

/-- The reply is the header and the lines of the networks that are listed. -/
theorem ctrlIfaceListNetworks_eq (h : listHeader.length+1 < buflen) (cmd : Option Bytes)
    (ssids : List SsidEntry) : ctrlIfaceListNetworks buflen cmd ssids =
      listHeader ++ 10 :: (listedNetworks buflen cmd ssids).flatMap SsidEntry.line := by
  have hput : put buflen [] (listHeader ++ [10]) = .ok (listHeader ++ [10]) :=
    if_pos (by simpa using h)
  rw [ctrlIfaceListNetworks,hput]
  dsimp only
  rw [listNetworksLoop_eq,List.length_append,List.append_assoc]
  rfl

/-- What is listed is the longest front of the list whose lines fit. -/
theorem front_listed_iff {used : ℕ} (h : used < buflen) (front ssids : List SsidEntry) :
    front <+: listed buflen used ssids ↔
      front <+: ssids ∧ used+(front.flatMap SsidEntry.line).length < buflen := by
  induction ssids generalizing used front with
  | nil =>
    refine ⟨fun hnil => ⟨hnil,?_⟩,And.left⟩
    rw [List.prefix_nil.mp hnil]
    exact h
  | cons ssid rest ih =>
    rw [listed]
    cases front with
    | nil => exact iff_of_true List.nil_prefix ⟨List.nil_prefix,h⟩
    | cons first front =>
      rw [List.cons_prefix_cons,List.flatMap_cons,List.length_append,← Nat.add_assoc]
      split
      · rename_i hfit
        rw [List.cons_prefix_cons,ih hfit,and_assoc]
        refine and_congr_right fun heq => ?_
        rw [heq]
      · refine iff_of_false (fun hnil => nomatch List.prefix_nil.mp hnil) ?_
        rintro ⟨⟨rfl,-⟩,hlen⟩
        omega

/-- The reply leaves room for its end. -/
theorem listed_length {used : ℕ} (h : used < buflen) (ssids : List SsidEntry) :
    used+((listed buflen used ssids).flatMap SsidEntry.line).length < buflen :=
  ((front_listed_iff h _ ssids).mp List.prefix_rfl).2

end Reply

section Plain

theorem wpaSsidTxt_plain (ssid : Option Bytes) : plain (wpaSsidTxt ssid) = true := by
  cases ssid with
  | none => rfl
  | some ssid => exact printfEncode_plain _ ssid

namespace SsidEntry
variable (ssid : SsidEntry)

theorem bssidTxt_plain : ∃ txt, ssid.bssidTxt = 9 :: txt ∧ plain txt = true := by
  refine ⟨_,rfl,?_⟩
  cases ssid.bssid with
  | none => rfl
  | some bssid => exact macStr_plain bssid.toList

theorem flagsTxt_plain : ∃ txt, ssid.flagsTxt = 9 :: txt ∧ plain txt = true := by
  refine ⟨_,rfl,?_⟩
  split_ifs
  all_goals rfl

/-- No field of a line ends the line or the text. -/
theorem text_clean : ∀ c ∈ ssid.text, c ≠ 0 ∧ c ≠ 10 := by
  have htab : ∀ c : UInt8, c = 9 → c ≠ 0 ∧ c ≠ 10 := by
    rintro c rfl
    decide
  obtain ⟨bssid,hbssid,hb⟩ := ssid.bssidTxt_plain
  obtain ⟨flags,hflags,hf⟩ := ssid.flagsTxt_plain
  intro c hc
  simp only [text,headTxt,hbssid,hflags,List.mem_append,List.mem_cons] at hc
  rcases hc with (hc | hc | hc) | (hc | hc) | hc | hc
  · exact plain_clean (decimal_plain _) c hc
  · exact htab c hc
  · exact plain_clean (wpaSsidTxt_plain _) c hc
  · exact htab c hc
  · exact plain_clean hb c hc
  · exact htab c hc
  · exact plain_clean hf c hc

example : (⟨3,some (ascii "a\n7\tb"),none,true,0,0⟩ : SsidEntry).line =
    ascii "3\ta\\n7\\tb\tany\t[CURRENT]\n" := rfl

/-- The first field of a line is the id. -/
theorem text_takeWhile : ssid.text.takeWhile (· != 9) = decimal ssid.id := by
  have hid : ∀ c ∈ decimal ssid.id, (c != 9) = true := by
    intro c hc
    simpa using (plain_iff.mp (decimal_plain ssid.id) c hc).2.1
  rw [text,headTxt,List.append_assoc,List.takeWhile_append_of_pos hid,List.cons_append,
    List.takeWhile_cons_of_neg (by decide),List.append_nil]

end SsidEntry
end Plain

end WpaCliWrapper
