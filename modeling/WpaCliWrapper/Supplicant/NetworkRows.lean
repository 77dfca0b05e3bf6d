import WpaCliWrapper.Exchange.Keyed
import WpaCliWrapper.Supplicant.NetworkBlock

/-! The rows of a network one by one: each row has members of its own, and a text for one row leaves
the members of the others alone. -/
namespace WpaCliWrapper
open CText Exchange

section Members
variable {n m : NetworkBlock}

/-- Two networks agree on the members of a row. -/
def FuncField.Same (f : FuncField) (n m : NetworkBlock) : Prop :=
  match f with
  | .bssid => n.bssid = m.bssid
  | .bssidBlacklist => n.bssidBlacklist = m.bssidBlacklist
  | .bssidWhitelist => n.bssidWhitelist = m.bssidWhitelist
  | .psk => n.psk = m.psk
  | .proto => n.proto = m.proto
  | .keyMgmt => n.keyMgmt = m.keyMgmt
  | .pairwise => n.pairwiseCipher = m.pairwiseCipher
  | .group => n.groupCipher = m.groupCipher
  | .authAlg => n.authAlg = m.authAlg
  | .scanFreq => n.scanFreq = m.scanFreq
  | .freqList => n.freqList = m.freqList
  | .eap => n.eapMethods = m.eapMethods
  | .password => n.password = m.password
  | .wepKey idx => n.wepKey idx = m.wepKey idx

def ParseData.Same (d : ParseData) (n m : NetworkBlock) : Prop :=
  match d.kind with
  | .str _ _ _ => n.strs d.name = m.strs d.name
  | .int _ _ => n.ints d.name = m.ints d.name
  | .func f => f.Same n m

theorem FuncField.same_refl (f : FuncField) (n : NetworkBlock) : f.Same n n := by
  cases f <;> exact rfl

theorem ParseData.same_refl (d : ParseData) (n : NetworkBlock) : d.Same n n := by
  obtain ⟨name,kind⟩ := d
  cases kind with
  | str | int => exact rfl
  | func f => exact f.same_refl n

/-- A parser of its own stores nothing outside the members of its row. -/
theorem FuncField.frame {f g : FuncField} (h : f ≠ g) (n : NetworkBlock) (value : Bytes) :
    g.Same (f.parser n value).2 n := by
  cases f <;> cases g
  all_goals first | exact absurd rfl h | rfl | skip
  exact Function.update_of_ne (fun heq => h (congrArg FuncField.wepKey heq.symm)) _ _

end Members

section Table

def ParseData.func? (d : ParseData) : Option FuncField :=
  match d.kind with
  | .func f => some f
  | _ => none

/-- No row has a least length or a least value other than zero, and the numbers of a new network are
in the range of their rows. -/
def ParseData.regular (d : ParseData) : Bool :=
  match d.kind with
  | .str _ minLen _ => minLen = 0
  | .int minValue maxValue => minValue = 0 ∧ 0 ≤ maxValue ∧ maxValue < 2^31 ∧
      -2^31 ≤ NetworkBlock.added.ints d.name ∧ NetworkBlock.added.ints d.name < 2^31 ∧
      (maxValue ≠ 0 → NetworkBlock.added.ints d.name ≤ maxValue)
  | .func _ => true

/-- No two rows have the same name, or the same parser of their own. -/
theorem ssidFields_checked : (ssidFields.map fun d => ascii d.name).Nodup ∧
    (ssidFields.Pairwise fun d e => d.func? ≠ none → d.func? ≠ e.func?) ∧
    ∀ d ∈ ssidFields, d.regular := by decide +kernel

theorem ssidFields_nodup : (ssidFields.map fun d => ascii d.name).Nodup := ssidFields_checked.1

theorem findField_mem {var : Bytes} {d : ParseData} (h : findField var = some d) :
    d ∈ ssidFields ∧ ascii d.name = var :=
  ⟨List.mem_of_find?_eq_some h,by simpa using List.find?_some h⟩

theorem findField_name {d : ParseData} (h : d ∈ ssidFields) : findField (ascii d.name) = some d := by
  have hfind := Keyed.find_of_mem ssidFields_nodup h
  have hsame : (fun e : ParseData => ascii e.name == ascii d.name) =
      fun e => decide (ascii e.name = ascii d.name) := by
    funext e
    exact Bool.eq_iff_iff.mpr (by simp)
  rw [findField,hsame]
  exact hfind

theorem set_row {d : ParseData} (hd : d ∈ ssidFields) (n : NetworkBlock) (value : Bytes) :
    wpaConfigSet n (ascii d.name) value = d.parser n value := by
  rw [wpaConfigSet,findField_name hd,Option.elim_some]

/-- A text for one row leaves the members of every other row alone. -/
theorem ParseData.frame {d e : ParseData} (hd : d ∈ ssidFields) (he : e ∈ ssidFields) (h : d ≠ e)
    (n : NetworkBlock) (value : Bytes) : d.Same (e.parser n value).2 n := by
  have hname : d.name ≠ e.name := fun heq => h
    (Keyed.inj_of_mem ssidFields_nodup hd he (congrArg ascii heq))
  have hfunc : d.func? ≠ none → d.func? ≠ e.func? := by
    have hsymm : Std.Symm fun d e : ParseData => d.func? ≠ none → d.func? ≠ e.func? :=
      ⟨fun d e hde hne heq => hde (heq ▸ hne) heq.symm⟩
    exact ssidFields_checked.2.1.forall hd he h
  obtain ⟨dname,dkind⟩ := d
  obtain ⟨ename,ekind⟩ := e
  cases ekind with
  | str =>
    cases dkind with
    | str => exact Function.update_of_ne hname _ _
    | int => exact rfl
    | func f => cases f <;> exact rfl
  | int =>
    cases dkind with
    | str => exact rfl
    | int => exact Function.update_of_ne hname _ _
    | func f => cases f <;> exact rfl
  | func g =>
    cases dkind with
    | str | int => cases g <;> exact rfl
    | func f =>
      refine FuncField.frame (fun heq => ?_) n value
      exact hfunc (Option.some_ne_none f) (congrArg some heq.symm)

/-- For the SSID this is what a network of the list does. -/
theorem set_ssid (n : NetworkBlock) (value : Bytes) :
    ((wpaConfigSet n (ascii "ssid") value).1 < 0 ↔ wpaConfigParseStr value = none) ∧
      (wpaConfigSet n (ascii "ssid") value).2.strs "ssid" =
        (wpaConfigParseStr value).getD (n.strs "ssid") := by
  have hset : wpaConfigSet n (ascii "ssid") value = n.setStr "ssid"
      (wpaConfigParseStrField true 0 ssidMaxLen (n.strs "ssid") value) :=
    set_row (List.mem_cons_self : (⟨"ssid",.str true 0 ssidMaxLen⟩ : ParseData) ∈ ssidFields) n value
  rw [hset,NetworkBlock.setStr,wpaConfigParseStrField,wpaConfigParseStr]
  simp only [Function.update_self]
  split
  · exact ⟨⟨fun h => absurd h (by split <;> decide),fun h => (by cases h)⟩,rfl⟩
  cases wpaConfigParseString value with
  | none => exact ⟨⟨fun _ => rfl,fun _ => (by decide : (-1 : ℤ) < 0)⟩,rfl⟩
  | some tmp =>
    simp only
    rw [if_neg fun h => h.1 rfl]
    by_cases hlen : ssidMaxLen < tmp.length
    · rw [if_pos ⟨by decide,hlen⟩,if_pos hlen]
      exact ⟨⟨fun _ => rfl,fun _ => (by decide : (-1 : ℤ) < 0)⟩,rfl⟩
    rw [if_neg fun h => hlen h.2,if_neg hlen]
    by_cases hsame : n.strs "ssid" = some tmp
    · rw [if_pos hsame,hsame]
      exact ⟨⟨fun h => absurd h (by decide : ¬ (1 : ℤ) < 0),fun h => (by cases h)⟩,rfl⟩
    · rw [if_neg hsame]
      exact ⟨⟨fun h => absurd h (by decide : ¬ (0 : ℤ) < 0),fun h => (by cases h)⟩,rfl⟩

end Table

end WpaCliWrapper
