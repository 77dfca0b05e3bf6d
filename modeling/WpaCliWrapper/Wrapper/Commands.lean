import WpaCliWrapper.CText.Bytes

/-! The command table `wpa_cli_commands` and the lookup of a command word in it. -/
namespace WpaCliWrapper
open CText

/-- The build options that the command table depends on. -/
inductive BuildOption
  | wpsNfc | ap | testingOptions | mesh | p2p | wifiDisplay | interworking | hs20 | autoscan | wnm | android
  deriving DecidableEq

abbrev BuildConfig := BuildOption → Bool

/-- The printing handlers of the commands that have a buffer-returning one; `other` stands for
every handler that only the interactive tool can run. -/
inductive Handler
  | status | ifname | listNetworks | selectNetwork | enableNetwork | disableNetwork | addNetwork
  | removeNetwork | setNetwork | saveConfig | scan | scanResults | other
  deriving DecidableEq

/-- The buffer-returning handlers; `default` is `handler_with_results_default_func`. -/
inductive HandlerWithResults
  | status | ifname | listNetworks | selectNetwork | enableNetwork | disableNetwork | addNetwork
  | removeNetwork | setNetwork | saveConfig | scan | scanResults | default
  deriving DecidableEq

structure WpaCliCmd where
  cmd : Bytes
  handler : Handler
  handlerWithResults : HandlerWithResults
  deriving DecidableEq

def other (cmd : String) : WpaCliCmd := ⟨ascii cmd,.other,.default⟩

/-- The rows of the table in order, each block with the option that it is compiled for. -/
def commandBlocks : List (Option BuildOption × List WpaCliCmd) :=
  [(none,
    [⟨ascii "status",.status,.status⟩,⟨ascii "ifname",.ifname,.ifname⟩,other "ping",other "relog",
     other "note",other "mib",other "help",other "interface",other "level",other "license",
     other "quit",other "set",other "dump",other "get",other "driver_flags",other "logon",
     other "logoff",other "pmksa",other "pmksa_flush",other "reassociate",other "reattach",
     other "preauthenticate",other "identity",other "password",other "new_password",other "pin",
     other "otp",other "passphrase",other "sim",other "bssid",other "blacklist",other "log_level",
     ⟨ascii "list_networks",.listNetworks,.listNetworks⟩,
     ⟨ascii "select_network",.selectNetwork,.selectNetwork⟩,
     ⟨ascii "enable_network",.enableNetwork,.enableNetwork⟩,
     ⟨ascii "disable_network",.disableNetwork,.disableNetwork⟩,
     ⟨ascii "add_network",.addNetwork,.addNetwork⟩,
     ⟨ascii "remove_network",.removeNetwork,.removeNetwork⟩,
     ⟨ascii "set_network",.setNetwork,.setNetwork⟩,other "get_network",other "dup_network",
     other "list_creds",other "add_cred",other "remove_cred",other "set_cred",other "get_cred",
     ⟨ascii "save_config",.saveConfig,.saveConfig⟩,other "disconnect",other "reconnect",
     ⟨ascii "scan",.scan,.scan⟩,⟨ascii "scan_results",.scanResults,.scanResults⟩,
     other "abort_scan",other "bss",other "get_capability",other "reconfigure",other "terminate",
     other "interface_add",other "interface_remove",other "interface_list",other "ap_scan",
     other "scan_interval",other "bss_expire_age",other "bss_expire_count",other "bss_flush",
     other "stkstart",other "ft_ds",other "wps_pbc",other "wps_pin",other "wps_check_pin",
     other "wps_cancel"]),
   (some .wpsNfc,
    [other "wps_nfc",other "wps_nfc_config_token",other "wps_nfc_token",other "wps_nfc_tag_read",
     other "nfc_get_handover_req",other "nfc_get_handover_sel",other "nfc_report_handover"]),
   (none,
    [other "wps_reg",other "wps_ap_pin",other "wps_er_start",other "wps_er_stop",
     other "wps_er_pin",other "wps_er_pbc",other "wps_er_learn",other "wps_er_set_config",
     other "wps_er_config"]),
   (some .wpsNfc,
    [other "wps_er_nfc_config_token"]),
   (none,
    [other "ibss_rsn"]),
   (some .ap,
    [other "sta",other "all_sta",other "deauthenticate",other "disassociate",other "chan_switch"]),
   (none,
    [other "suspend",other "resume"]),
   (some .testingOptions,
    [other "drop_sa"]),
   (none,
    [other "roam"]),
   (some .mesh,
    [other "mesh_interface_add",other "mesh_group_add",other "mesh_group_remove",
     other "mesh_peer_remove",other "mesh_peer_add"]),
   (some .p2p,
    [other "p2p_find",other "p2p_stop_find",other "p2p_asp_provision",
     other "p2p_asp_provision_resp",other "p2p_connect",other "p2p_listen",
     other "p2p_group_remove",other "p2p_group_add",other "p2p_group_member",
     other "p2p_prov_disc",other "p2p_get_passphrase",other "p2p_serv_disc_req",
     other "p2p_serv_disc_cancel_req",other "p2p_serv_disc_resp",other "p2p_service_update",
     other "p2p_serv_disc_external",other "p2p_service_flush",other "p2p_service_add",
     other "p2p_service_rep",other "p2p_service_del",other "p2p_reject",other "p2p_invite",
     other "p2p_peers",other "p2p_peer",other "p2p_set",other "p2p_flush",other "p2p_cancel",
     other "p2p_unauthorize",other "p2p_presence_req",other "p2p_ext_listen",
     other "p2p_remove_client",other "vendor_elem_add",other "vendor_elem_get",
     other "vendor_elem_remove"]),
   (some .wifiDisplay,
    [other "wfd_subelem_set",other "wfd_subelem_get"]),
   (some .interworking,
    [other "fetch_anqp",other "stop_fetch_anqp",other "interworking_select",
     other "interworking_connect",other "interworking_add_network",other "anqp_get",
     other "gas_request",other "gas_response_get"]),
   (some .hs20,
    [other "hs20_anqp_get",other "nai_home_realm_list",other "hs20_icon_request",
     other "fetch_osu",other "cancel_fetch_osu"]),
   (none,
    [other "sta_autoconnect",other "tdls_discover",other "tdls_setup",other "tdls_teardown",
     other "tdls_link_status",other "wmm_ac_addts",other "wmm_ac_delts",other "wmm_ac_status",
     other "tdls_chan_switch",other "tdls_cancel_chan_switch",other "signal_poll",
     other "signal_monitor",other "pktcnt_poll",other "reauthenticate"]),
   (some .autoscan,
    [other "autoscan"]),
   (some .wnm,
    [other "wnm_sleep",other "wnm_bss_query"]),
   (none,
    [other "raw",other "flush"]),
   (some .android,
    [other "driver"]),
   (none,
    [other "radio_work",other "vendor",other "neighbor_rep_request",other "erp_flush",
     other "mac_rand_scan",other "get_pref_freq_list",other "p2p_lo_start",other "p2p_lo_stop"])]

def wpaCliCommands (cfg : BuildConfig) : List WpaCliCmd :=
  commandBlocks.flatMap fun (option,block) => if option.all cfg then block else []

/-- The first loop of `wpa_request`: the number of commands that the word abbreviates and the
last of them; an exact match ends the loop and counts alone. -/
def matchLoop (word : Bytes) : ℕ → Option WpaCliCmd → List WpaCliCmd → ℕ × Option WpaCliCmd
  | count, found, [] => (count,found)
  | count, found, cmd :: cmds =>
    if hasPrefixCase cmd.cmd word then
      if eqCase cmd.cmd word then (1,some cmd) else matchLoop word (count+1) (some cmd) cmds
    else matchLoop word count found cmds

inductive Selection
  | ambiguous
  | unknown
  | found (cmd : WpaCliCmd)
  deriving DecidableEq

def selectCommand (cfg : BuildConfig) (word : Bytes) : Selection :=
  match matchLoop word 0 none (wpaCliCommands cfg) with
  | (1,some cmd) => .found cmd
  | (0,_) => .unknown
  | _ => .ambiguous

/-- The names that the message about an ambiguous word lists. -/
def candidates (cfg : BuildConfig) (word : Bytes) : List Bytes :=
  ((wpaCliCommands cfg).filter (hasPrefixCase ·.cmd word)).map (·.cmd)

theorem hasPrefixCase_of_eqCase {s t : Bytes} (h : eqCase s t) : hasPrefixCase s t := by
  have h : s.map toLower = t.map toLower := by simpa [eqCase] using h
  simp [hasPrefixCase,h]

/-- The loop stops at the first row that has exactly the name looked for. -/
theorem matchLoop_exact {word : Bytes} {cmds : List WpaCliCmd} {cmd : WpaCliCmd}
    (h : cmds.find? (eqCase ·.cmd word) = some cmd) (count : ℕ) (found : Option WpaCliCmd) :
    matchLoop word count found cmds = (1,some cmd) := by
  induction cmds generalizing count found with
  | nil => cases h
  | cons c cmds ih =>
    by_cases hc : eqCase c.cmd word
    · simp only [List.find?_cons,hc] at h
      cases h
      simp [matchLoop,hc,hasPrefixCase_of_eqCase hc]
    · simp only [List.find?_cons,hc] at h
      unfold matchLoop
      split
      · simpa [hc] using ih h (count+1) (some c)
      · exact ih h count found

theorem matchLoop_mem {word : Bytes} (cmds : List WpaCliCmd) (count : ℕ)
    (found : Option WpaCliCmd) (cmd : WpaCliCmd)
    (h : (matchLoop word count found cmds).2 = some cmd) :
    cmd ∈ cmds ∧ hasPrefixCase cmd.cmd word ∨ found = some cmd := by
  induction cmds generalizing count found with
  | nil => exact .inr h
  | cons c cmds ih =>
    unfold matchLoop at h
    split at h
    · rename_i hc
      split at h
      · cases h
        exact .inl ⟨by simp,hc⟩
      · rcases ih _ _ h with ⟨h,hp⟩ | h
        · exact .inl ⟨by simp [h],hp⟩
        · cases h
          exact .inl ⟨by simp,hc⟩
    · rcases ih _ _ h with ⟨h,hp⟩ | h
      · exact .inl ⟨by simp [h],hp⟩
      · exact .inr h

theorem selectCommand_found {cfg : BuildConfig} {word : Bytes} {cmd : WpaCliCmd}
    (h : selectCommand cfg word = .found cmd) :
    cmd ∈ wpaCliCommands cfg ∧ hasPrefixCase cmd.cmd word := by
  unfold selectCommand at h
  split at h
  · rename_i c hm
    cases h
    rcases matchLoop_mem (wpaCliCommands cfg) 0 none cmd (by rw [hm]) with h | h
    · exact h
    · cases h
  · cases h
  · cases h

theorem selectCommand_mem {cfg : BuildConfig} {word : Bytes} {cmd : WpaCliCmd}
    (h : selectCommand cfg word = .found cmd) : cmd ∈ wpaCliCommands cfg := (selectCommand_found h).1

/-- No build option hides the rows of the first block or puts other rows before them. -/
theorem selectCommand_exact (cfg : BuildConfig) {word : Bytes} {cmd : WpaCliCmd}
    (h : (commandBlocks.head?.elim [] (·.2)).find? (eqCase ·.cmd word) = some cmd) :
    selectCommand cfg word = .found cmd := by
  have hf : (wpaCliCommands cfg).find? (eqCase ·.cmd word) = some cmd := by
    change ((commandBlocks.head?.elim [] (·.2)) ++ _).find? _ = _
    rw [List.find?_append,h]
    rfl
  simp only [selectCommand,matchLoop_exact hf]

theorem mem_commandBlocks {cfg : BuildConfig} {cmd : WpaCliCmd} (h : cmd ∈ wpaCliCommands cfg) :
    ∃ block ∈ commandBlocks, cmd ∈ block.2 := by
  obtain ⟨block,hb,hc⟩ := List.mem_flatMap.mp h
  dsimp only at hc
  split at hc
  · exact ⟨block,hb,hc⟩
  · cases hc

/-- The handlers of one row implement the same command. -/
def WpaCliCmd.Paired (cmd : WpaCliCmd) : Prop :=
  match cmd.handlerWithResults with
  | .status => cmd.handler = .status
  | .ifname => cmd.handler = .ifname
  | .listNetworks => cmd.handler = .listNetworks
  | .selectNetwork => cmd.handler = .selectNetwork
  | .enableNetwork => cmd.handler = .enableNetwork
  | .disableNetwork => cmd.handler = .disableNetwork
  | .addNetwork => cmd.handler = .addNetwork
  | .removeNetwork => cmd.handler = .removeNetwork
  | .setNetwork => cmd.handler = .setNetwork
  | .saveConfig => cmd.handler = .saveConfig
  | .scan => cmd.handler = .scan
  | .scanResults => cmd.handler = .scanResults
  | .default => cmd.handler = .other

instance (cmd : WpaCliCmd) : Decidable cmd.Paired := by
  unfold WpaCliCmd.Paired
  split <;> infer_instance

theorem commands_paired {cfg : BuildConfig} {cmd : WpaCliCmd} (h : cmd ∈ wpaCliCommands cfg) :
    cmd.Paired := by
  have hall : ∀ block ∈ commandBlocks, ∀ cmd ∈ block.2, cmd.Paired := by decide +kernel
  obtain ⟨block,hb,hc⟩ := mem_commandBlocks h
  exact hall block hb cmd hc

/-- Every command has a name, without a double quote or an equals sign. -/
theorem commands_named {cfg : BuildConfig} {cmd : WpaCliCmd} (h : cmd ∈ wpaCliCommands cfg) :
    cmd.cmd ≠ [] ∧ ∀ c ∈ cmd.cmd, toLower c ≠ 34 ∧ toLower c ≠ 61 := by
  have hall : commandBlocks.all (·.2.all fun cmd => !cmd.cmd.isEmpty &&
      cmd.cmd.all fun c => toLower c != 34 && toLower c != 61) := by decide +kernel
  simp only [List.all_eq_true,Bool.and_eq_true,Bool.not_eq_true',List.isEmpty_eq_false_iff,
    bne_iff_ne] at hall
  obtain ⟨block,hb,hc⟩ := mem_commandBlocks h
  exact hall block hb cmd hc

/-- A word that selects a command has neither a double quote nor an equals sign. -/
theorem selectCommand_chars {cfg : BuildConfig} {word : Bytes} {cmd : WpaCliCmd}
    (h : selectCommand cfg word = .found cmd) : 34 ∉ word ∧ 61 ∉ word := by
  obtain ⟨hmem,hpre⟩ := selectCommand_found h
  have hsub : ∀ c ∈ word, toLower c ≠ 34 ∧ toLower c ≠ 61 := by
    intro c hw
    have hin := (List.isPrefixOf_iff_prefix.mp hpre).subset (List.mem_map_of_mem hw)
    obtain ⟨d,hd,hdc⟩ := List.mem_map.mp hin
    exact hdc ▸ (commands_named hmem).2 d hd
  exact ⟨fun hq => (hsub 34 hq).1 rfl,fun he => (hsub 61 he).2 rfl⟩

section Rows
variable (cfg : BuildConfig)

theorem select_status :
    selectCommand cfg (ascii "status") = .found ⟨ascii "status",.status,.status⟩ :=
  selectCommand_exact cfg (by decide)
theorem select_add_network :
    selectCommand cfg (ascii "add_network") = .found ⟨ascii "add_network",.addNetwork,.addNetwork⟩ :=
  selectCommand_exact cfg (by decide)
theorem select_set_network :
    selectCommand cfg (ascii "set_network") = .found ⟨ascii "set_network",.setNetwork,.setNetwork⟩ :=
  selectCommand_exact cfg (by decide)
theorem select_enable_network : selectCommand cfg (ascii "enable_network") =
    .found ⟨ascii "enable_network",.enableNetwork,.enableNetwork⟩ :=
  selectCommand_exact cfg (by decide)
theorem select_disable_network : selectCommand cfg (ascii "disable_network") =
    .found ⟨ascii "disable_network",.disableNetwork,.disableNetwork⟩ :=
  selectCommand_exact cfg (by decide)
theorem select_remove_network : selectCommand cfg (ascii "remove_network") =
    .found ⟨ascii "remove_network",.removeNetwork,.removeNetwork⟩ :=
  selectCommand_exact cfg (by decide)

end Rows

end WpaCliWrapper
