import WpaCliWrapper.Wrapper.Execute

/-! The filter that keeps sensitive commands out of the history file, beside the dispatcher of the
prompt. -/
namespace WpaCliWrapper
open CText

def cliCmdFlagNone : ℕ := 0x00
def cliCmdFlagSensitive : ℕ := 0x01

/-- The rows of the table that have `cli_cmd_flag_sensitive`. -/
def sensitiveCommands : List Bytes :=
  [ascii "password",ascii "new_password",ascii "pin",ascii "otp",ascii "passphrase",ascii "sim",
   ascii "set_network",ascii "set_cred",ascii "wps_pin",ascii "wps_check_pin",
   ascii "wps_nfc_tag_read",ascii "wps_reg",ascii "wps_ap_pin",ascii "wps_er_pin",
   ascii "wps_er_learn",ascii "wps_er_config",ascii "raw"]

def WpaCliCmd.flags (cmd : WpaCliCmd) : ℕ :=
  if sensitiveCommands.contains cmd.cmd then cliCmdFlagSensitive else cliCmdFlagNone

section History
variable (cfg : BuildConfig)

/-- `wpa_cli_edit_filter_history_cb`: the text up to the first blank is compared with the names. -/
def wpaCliEditFilterHistoryCb (cmd : Bytes) : ℕ :=
  let word := cmd.takeWhile (· != 32)
  match (wpaCliCommands cfg).find? fun c =>
      hasPrefixCase c.cmd word && word.length == c.cmd.length with
  | some c => c.flags &&& cliCmdFlagSensitive
  | none => 0

/-- The row whose handler `wpa_request` calls, if it calls one. -/
def wpaRequestMatch (argv : List Bytes) : Option WpaCliCmd :=
  match (stripIfname argv).2 with
  | [] => none
  | name :: _ => match selectCommand cfg name with
    | .found cmd => some cmd
    | _ => none

/-- `wpa_cli_edit_cmd_cb`, up to the handler. -/
def wpaCliEditCmdCb (cmd : Bytes) : Option WpaCliCmd :=
  let argv := tokenizeCmd cmd
  if argv.length = 0 then none else wpaRequestMatch cfg argv

def historyMax : ℕ := 100

/-- `history_add`: the newest line comes first, and no line comes twice. -/
def historyAdd (history : List Bytes) (str : Bytes) : List Bytes :=
  if str = [] then history
  else if history.contains str then str :: history.erase str
  else str :: if historyMax ≤ history.length then history.dropLast else history

/-- What `history_write` puts into the file, one line for each entry of the history. -/
def historyWrite (history : List Bytes) : List Bytes :=
  history.reverse.filter (wpaCliEditFilterHistoryCb cfg · = 0)

end History

section Words
variable {cfg : BuildConfig}

theorem eqCase_iff {s word : Bytes} :
    (hasPrefixCase s word && word.length == s.length) = eqCase s word := by
  rw [Bool.eq_iff_iff]
  simp only [hasPrefixCase,eqCase,Bool.and_eq_true,beq_iff_eq,List.isPrefixOf_iff_prefix]
  constructor
  · rintro ⟨hpre,hlen⟩
    exact (hpre.eq_of_length (by rw [List.length_map,List.length_map,hlen])).symm
  · intro h
    refine ⟨by rw [h],?_⟩
    have := congrArg List.length h
    rwa [List.length_map,List.length_map,eq_comm] at this

/-- A line that starts with a word without a double quote. -/
theorem tokenizeCmd_word {line : Bytes} (hword : line.takeWhile (· != 32) ≠ [])
    (hq : 34 ∉ line.takeWhile (· != 32)) :
    ∃ argv, tokenizeCmd line = line.takeWhile (· != 32) :: argv := by
  cases line with
  | nil => exact absurd rfl hword
  | cons c line =>
    have hc : c ≠ 32 := fun hc => hword (by rw [hc]; rfl)
    have hcq : c ≠ 34 := fun h => hq (by
      rw [List.takeWhile_cons,if_pos (by simpa using hc),h]
      exact List.mem_cons_self)
    have hpos : (c :: line).dropWhile isSpaceChar = c :: line := by
      rw [List.dropWhile_cons,if_neg (by simpa [isSpaceChar] using hc)]
    have hquoted : quotedLength (c :: line) = 0 := by
      rw [quotedLength,if_neg (by simpa using hcq)]
    rw [tokenizeCmd,maxArgs,tokenizeArgs]
    simp only [hpos,hquoted,List.take_zero,List.drop_zero,List.nil_append]
    rw [if_neg (List.cons_ne_nil c line),if_neg (by decide)]
    exact ⟨_,rfl⟩

/-- A line that starts with the name of a row is dispatched to that row. -/
theorem wpaCliEditCmdCb_exact {line : Bytes} {cmd : WpaCliCmd}
    (h : (wpaCliCommands cfg).find? (eqCase ·.cmd (line.takeWhile (· != 32))) = some cmd) :
    wpaCliEditCmdCb cfg line = some cmd := by
  have hselect : selectCommand cfg (line.takeWhile (· != 32)) = .found cmd := by
    simp only [selectCommand,matchLoop_exact h]
  obtain ⟨hq,he⟩ := selectCommand_chars hselect
  have hmem := List.mem_of_find?_eq_some h
  have heq : eqCase cmd.cmd (line.takeWhile (· != 32)) := by
    have hsome := List.find?_some h
    exact hsome
  have hword : line.takeWhile (· != 32) ≠ [] := by
    intro hnil
    rw [hnil] at heq
    exact (commands_named hmem).1 (by simpa [eqCase] using heq)
  obtain ⟨argv,hargv⟩ := tokenizeCmd_word hword hq
  have hplain : ¬ hasPrefixCase (line.takeWhile (· != 32)) (ascii "IFNAME=") :=
    fun hp => he (ifname_head hp).1
  have hstrip : (stripIfname (line.takeWhile (· != 32) :: argv)).2 =
      line.takeWhile (· != 32) :: argv := by
    cases argv with
    | nil => rfl
    | cons second argv => rw [stripIfname,if_neg hplain]
  simp only [wpaCliEditCmdCb,hargv,wpaRequestMatch,hstrip,hselect]
  exact if_neg (by simp)

theorem wpaCliEditCmdCb_mem {line : Bytes} {cmd : WpaCliCmd}
    (h : wpaCliEditCmdCb cfg line = some cmd) : cmd ∈ wpaCliCommands cfg := by
  simp only [wpaCliEditCmdCb,wpaRequestMatch] at h
  split at h
  · cases h
  · split at h
    · cases h
    · split at h
      · rename_i hselect
        cases h
        exact selectCommand_mem hselect
      · cases h

theorem wpaCliEditFilterHistoryCb_ne_zero {line : Bytes} :
    wpaCliEditFilterHistoryCb cfg line ≠ 0 ↔ ∃ cmd,
      (wpaCliCommands cfg).find? (eqCase ·.cmd (line.takeWhile (· != 32))) = some cmd ∧
        cmd.flags = cliCmdFlagSensitive := by
  simp only [wpaCliEditFilterHistoryCb,eqCase_iff]
  cases (wpaCliCommands cfg).find? (eqCase ·.cmd (line.takeWhile (· != 32))) with
  | none => simp
  | some cmd =>
    have hflags : cmd.flags = cliCmdFlagSensitive ∨ cmd.flags = cliCmdFlagNone := by
      unfold WpaCliCmd.flags
      split
      · exact .inl rfl
      · exact .inr rfl
    rcases hflags with hflags | hflags
    · simp [hflags,cliCmdFlagSensitive]
    · simp [hflags,cliCmdFlagSensitive,cliCmdFlagNone]

end Words

/-- A sensitive command is held back if the line starts with its whole name. -/
theorem filtered_iff {cfg : BuildConfig} {line : Bytes} {cmd : WpaCliCmd}
    (hcmd : wpaCliEditCmdCb cfg line = some cmd) (hflags : cmd.flags = cliCmdFlagSensitive) :
    wpaCliEditFilterHistoryCb cfg line ≠ 0 ↔ eqCase cmd.cmd (line.takeWhile (· != 32)) := by
  rw [wpaCliEditFilterHistoryCb_ne_zero]
  constructor
  · rintro ⟨row,hrow,-⟩
    obtain rfl : cmd = row := Option.some.inj (hcmd.symm.trans (wpaCliEditCmdCb_exact hrow))
    have hsome := List.find?_some hrow
    exact hsome
  · intro heq
    have hsome : ((wpaCliCommands cfg).find? (eqCase ·.cmd (line.takeWhile (· != 32)))).isSome :=
      List.find?_isSome.mpr ⟨cmd,wpaCliEditCmdCb_mem hcmd,heq⟩
    obtain ⟨row,hrow⟩ := Option.isSome_iff_exists.mp hsome
    obtain rfl : cmd = row := Option.some.inj (hcmd.symm.trans (wpaCliEditCmdCb_exact hrow))
    exact ⟨cmd,hrow,hflags⟩

section Prompt

theorem mem_historyAdd {history : List Bytes} {str line : Bytes} (h : line ∈ historyAdd history str) :
    line = str ∨ line ∈ history := by
  unfold historyAdd at h
  split at h
  · exact .inr h
  · split at h
    · exact (List.mem_cons.mp h).imp_right List.mem_of_mem_erase
    · refine (List.mem_cons.mp h).imp_right fun h => ?_
      split at h
      · exact List.dropLast_subset history h
      · exact h

theorem mem_history {history lines : List Bytes} {line : Bytes}
    (h : line ∈ lines.foldl historyAdd history) : line ∈ lines ∨ line ∈ history := by
  induction lines generalizing history with
  | nil => exact .inr h
  | cons str lines ih =>
    rcases ih h with h | h
    · exact .inl (List.mem_cons_of_mem str h)
    · rcases mem_historyAdd h with rfl | h
      · exact .inl List.mem_cons_self
      · exact .inr h

/-- If sensitive commands are typed with their whole name in front, then none of them is in the
file that a session leaves. -/
theorem historyWrite_session {cfg : BuildConfig} {history lines : List Bytes}
    (h : ∀ line ∈ lines ++ history, ∀ cmd, wpaCliEditCmdCb cfg line = some cmd →
      cmd.flags = cliCmdFlagSensitive → eqCase cmd.cmd (line.takeWhile (· != 32))) :
    ∀ line ∈ historyWrite cfg (lines.foldl historyAdd history), ∀ cmd,
      wpaCliEditCmdCb cfg line = some cmd → cmd.flags ≠ cliCmdFlagSensitive := by
  intro line hline cmd hcmd hflags
  obtain ⟨hmem,hfilter⟩ := List.mem_filter.mp hline
  have hin := List.mem_append.mpr (mem_history (List.mem_reverse.mp hmem))
  exact (filtered_iff hcmd hflags).mpr (h line hin cmd hcmd hflags) (of_decide_eq_true hfilter)

end Prompt

/-- If the line is dispatched to a sensitive command, then the filter holds it back. -/
def HeldBack (cfg : BuildConfig) (line : CString) : Prop :=
  ∀ cmd, wpaCliEditCmdCb cfg line.bytes = some cmd → cmd.flags = cliCmdFlagSensitive →
    wpaCliEditFilterHistoryCb cfg line.bytes ≠ 0

/-- The filter holds back what starts with the whole name of the command, without a blank, without
an interface and not abbreviated. -/
theorem heldBack_iff (cfg : BuildConfig) (line : CString) : HeldBack cfg line ↔
    ∀ cmd, wpaCliEditCmdCb cfg line.bytes = some cmd → cmd.flags = cliCmdFlagSensitive →
      eqCase cmd.cmd (line.bytes.takeWhile (· != 32)) :=
  forall₃_congr fun _ hcmd hflags => filtered_iff hcmd hflags

/-- An abbreviation of `password`. -/
theorem heldBack_passw : ¬ HeldBack (fun _ => false) ⟨ascii "passw 0 secret",by decide⟩ := by
  have hcmd : wpaCliEditCmdCb (fun _ => false) (ascii "passw 0 secret") =
      some (other "password") := by decide +kernel
  exact fun h => h _ hcmd (by decide +kernel) (by decide +kernel)

end WpaCliWrapper
