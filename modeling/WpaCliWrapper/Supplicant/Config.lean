import WpaCliWrapper.Utils.Printf

/-! The configured networks of the daemon: the list of `struct wpa_ssid` and the operations of
`wpa_supplicant/config.c` on it. -/
namespace WpaCliWrapper
open CText

/-- The rows of `ssid_fields` other than `ssid`: which settings a network has besides, their
defaults, what each row does with a value, and how a new SSID changes them. A row gets a pointer
to one network and has no access to its id; a new SSID is followed by `wpa_config_update_psk`. -/
structure SsidFields where
  Settings : Type
  defaults : Settings
  set : Bytes → Bytes → Option Bytes → ℕ × Settings → Option (ℕ × Settings)
  updatePsk : Option Bytes → Settings → Settings

/-- A daemon whose networks have an SSID and nothing else. -/
def noFields : SsidFields := ⟨Unit,(),fun _ _ _ _ => none,fun _ _ => ()⟩

/-- `struct wpa_ssid`; `ssid` is NULL until it is set, and `disabled` is 2 for a persistent group. -/
structure WpaSsid (F : SsidFields) where
  id : ℤ
  ssid : Option Bytes
  disabled : ℕ
  settings : F.Settings

variable {F : SsidFields}

/-- The list `conf->ssid`. -/
abbrev Networks (F : SsidFields) := List (WpaSsid F)

def Networks.ids (nets : Networks F) : List ℤ := nets.map WpaSsid.id

def wpaConfigGetNetwork (nets : Networks F) (id : ℤ) : Option (WpaSsid F) :=
  nets.find? (id == ·.id)

/-- One more than the largest id, or 0. -/
def nextId (nets : Networks F) : ℤ := nets.ids.foldl max (-1) + 1

/-- `wpa_supplicant_add_network`: the new network is the last one and disabled. -/
def newNetwork (nets : Networks F) : WpaSsid F := ⟨nextId nets,none,1,F.defaults⟩

def wpaConfigRemoveNetwork (nets : Networks F) (id : ℤ) : Option (Networks F) :=
  (wpaConfigGetNetwork nets id).map fun _ => nets.eraseP (id == ·.id)

/-- A store through the pointer to the network that has this id. -/
def putNetwork (ssid : WpaSsid F) : Networks F → Networks F
  | [] => []
  | n :: nets => if ssid.id == n.id then ssid :: nets else n :: putNetwork ssid nets

def ssidMaxLen : ℕ := 32

/-- `wpa_config_parse_str` for the row `ssid`: the value that the pointer gets. -/
def wpaConfigParseStr (value : Bytes) : Option (Option Bytes) :=
  if value = ascii "NULL" then some none
  else
    match wpaConfigParseString value with
    | none => none
    | some tmp => if ssidMaxLen < tmp.length then none else some (some tmp)

/-- `wpa_supplicant_ctrl_iface_update_network`: a value that changes nothing has no effect. -/
def updateNetwork (ssid : WpaSsid F) (name value : Bytes) : Option (WpaSsid F) :=
  if name = ascii "ssid" then
    (wpaConfigParseStr value).map fun tmp =>
      if tmp = ssid.ssid then ssid
      else { ssid with ssid := tmp, settings := F.updatePsk tmp ssid.settings }
  else
    (F.set name value ssid.ssid (ssid.disabled,ssid.settings)).map fun r =>
      { ssid with disabled := r.1, settings := r.2 }

theorem updateNetwork_id {ssid ssid' : WpaSsid F} {name value : Bytes}
    (h : updateNetwork ssid name value = some ssid') : ssid'.id = ssid.id := by
  unfold updateNetwork at h
  split at h
  · obtain ⟨tmp,-,rfl⟩ := Option.map_eq_some_iff.mp h
    split <;> rfl
  · obtain ⟨r,-,rfl⟩ := Option.map_eq_some_iff.mp h
    rfl

/-- The SSID that a value stands for is never the text of the value. -/
theorem parseStr_length {value tmp : Bytes} (hne : value ≠ [])
    (h : wpaConfigParseStr value = some (some tmp)) : tmp.length < value.length := by
  unfold wpaConfigParseStr at h
  split at h
  · cases h
  · split at h
    · cases h
    · rename_i hp
      split at h
      · cases h
      · cases h
        exact parseString_length hne hp

theorem getNetwork_mem {nets : Networks F} {id : ℤ} {ssid : WpaSsid F}
    (h : wpaConfigGetNetwork nets id = some ssid) : ssid ∈ nets ∧ ssid.id = id := by
  have hid := List.find?_some h
  exact ⟨List.mem_of_find?_eq_some h,(by simpa using hid : id = ssid.id).symm⟩

theorem getNetwork_none {nets : Networks F} {id : ℤ} :
    wpaConfigGetNetwork nets id = none ↔ id ∉ nets.ids := by
  unfold wpaConfigGetNetwork Networks.ids
  rw [List.find?_eq_none,List.mem_map]
  constructor
  · rintro h ⟨n,hn,rfl⟩
    exact h n hn (by simp)
  · intro h n hn he
    exact h ⟨n,hn,(by simpa using he : id = n.id).symm⟩

theorem le_foldl_max (l : List ℤ) (a : ℤ) : a ≤ l.foldl max a ∧ ∀ x ∈ l, x ≤ l.foldl max a := by
  induction l generalizing a with
  | nil => simp
  | cons y l ih =>
    obtain ⟨ha,hl⟩ := ih (max a y)
    rw [List.foldl_cons]
    refine ⟨by omega,fun x hx => ?_⟩
    rcases List.mem_cons.mp hx with rfl | hx
    · omega
    · exact hl x hx

/-- A new id is no id of the list, and never negative. -/
theorem nextId_fresh (nets : Networks F) : nextId nets ∉ nets.ids ∧ 0 ≤ nextId nets := by
  obtain ⟨h0,hl⟩ := le_foldl_max nets.ids (-1)
  unfold nextId
  refine ⟨fun hm => ?_,by omega⟩
  have hle := hl _ hm
  omega

/-- The new network is found under its id. -/
theorem getNetwork_newNetwork (nets : Networks F) :
    wpaConfigGetNetwork (nets ++ [newNetwork nets]) (nextId nets) = some (newNetwork nets) := by
  have hnone := getNetwork_none.mpr (nextId_fresh nets).1
  unfold wpaConfigGetNetwork at hnone ⊢
  rw [List.find?_append,hnone]
  simp [newNetwork]

@[simp] theorem putNetwork_ids (ssid : WpaSsid F) (nets : Networks F) :
    (putNetwork ssid nets).ids = nets.ids := by
  induction nets with
  | nil => rfl
  | cons n nets ih =>
    unfold putNetwork
    split
    · rename_i h
      simp only [Networks.ids,List.map_cons,List.cons.injEq,and_true]
      simpa using h
    · simp only [Networks.ids,List.map_cons] at ih ⊢
      rw [ih]

/-- What was stored is what the next look finds. -/
theorem getNetwork_putNetwork {nets : Networks F} {ssid : WpaSsid F} (h : ssid.id ∈ nets.ids) :
    wpaConfigGetNetwork (putNetwork ssid nets) ssid.id = some ssid := by
  induction nets with
  | nil => cases h
  | cons n nets ih =>
    unfold putNetwork
    split
    · simp [wpaConfigGetNetwork]
    · rename_i hne
      have hne : ssid.id ≠ n.id := by simpa using hne
      have hmem := (List.mem_cons.mp h).resolve_left hne
      rw [wpaConfigGetNetwork,List.find?_cons_of_neg (by simpa using hne)]
      exact ih hmem

/-- Networks with other ids at the front of the list stay as they are. -/
theorem putNetwork_front {before nets : Networks F} (h : before <+: nets) {ssid : WpaSsid F}
    (hi : ssid.id ∉ before.ids) : before <+: putNetwork ssid nets := by
  obtain ⟨rest,rfl⟩ := h
  induction before with
  | nil => exact List.nil_prefix
  | cons n before ih =>
    simp only [Networks.ids,List.map_cons,List.mem_cons,not_or] at hi
    rw [List.cons_append,putNetwork,if_neg (by simpa using hi.1)]
    exact List.cons_prefix_cons.mpr ⟨rfl,ih hi.2⟩

theorem eraseP_ids (id : ℤ) (nets : Networks F) :
    Networks.ids (nets.eraseP (id == ·.id)) = nets.ids.erase id := by
  unfold Networks.ids
  induction nets with
  | nil => rfl
  | cons n nets ih =>
    rw [List.map_cons,List.erase_cons]
    by_cases h : id = n.id
    · rw [List.eraseP_cons_of_pos (by simpa using h)]
      simp [h]
    · rw [List.eraseP_cons_of_neg (by simpa using h),List.map_cons,ih]
      simp [Ne.symm h]

/-- Removing a network takes its id out of the list. -/
theorem removeNetwork_ids {nets nets' : Networks F} {id : ℤ}
    (hr : wpaConfigRemoveNetwork nets id = some nets') : nets'.ids = nets.ids.erase id := by
  obtain ⟨n,-,rfl⟩ := Option.map_eq_some_iff.mp hr
  exact eraseP_ids id nets

end WpaCliWrapper
