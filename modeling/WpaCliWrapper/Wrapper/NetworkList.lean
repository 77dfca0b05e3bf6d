import WpaCliWrapper.Supplicant.CtrlIface
import WpaCliWrapper.Supplicant.ListNetworks
import WpaCliWrapper.Wrapper.Execute

/-! The list of networks that `update_networks` keeps, and the networks that the daemon lists. -/
namespace WpaCliWrapper
open CText Exchange

section Reply

/-- Lines that end in a newline each are found again. -/
theorem splitOn_lines {lines : List Bytes} (h : ∀ line ∈ lines, 10 ∉ line) :
    (lines.flatMap (· ++ [10])).splitOn 10 = lines ++ [[]] := by
  induction lines with
  | nil => rfl
  | cons line lines ih =>
    have hline := h line List.mem_cons_self
    rw [List.flatMap_cons,List.append_assoc,List.singleton_append,
      List.splitOn_append_cons_self_of_not_mem hline,ih fun l hl => h l (List.mem_cons_of_mem _ hl),
      List.cons_append]

theorem networkLines_eq {title : Bytes} {lines : List Bytes} (htitle : 10 ∉ title)
    (h : ∀ line ∈ lines, 10 ∉ line) :
    networkLines (title ++ 10 :: lines.flatMap (· ++ [10])) = lines := by
  rw [networkLines,List.splitOn_append_cons_self_of_not_mem htitle,splitOn_lines h,
    ← List.cons_append,List.dropLast_concat,List.drop_one,List.tail_cons]

theorem listHeader_clean : ∀ c ∈ listHeader, c ≠ 0 ∧ c ≠ 10 :=
  plain_clean (show plain listHeader = true from rfl)

theorem listHeader_fits : listHeader.length+1 < replySize := by decide

variable (cmd : Option Bytes) (ssids : List SsidEntry)

theorem listNetworks_noNul : 0 ∉ ctrlIfaceListNetworks replySize cmd ssids := by
  rw [ctrlIfaceListNetworks_eq listHeader_fits]
  intro h
  rcases List.mem_append.mp h with h | h
  · exact (listHeader_clean 0 h).1 rfl
  · obtain ⟨ssid,-,h⟩ := List.mem_flatMap.mp ((List.mem_cons.mp h).resolve_left (by decide))
    rcases List.mem_append.mp h with h | h
    · exact (ssid.text_clean 0 h).1 rfl
    · exact absurd h (by decide)

theorem listNetworks_length : (ctrlIfaceListNetworks replySize cmd ssids).length < replySize := by
  have hlen := listed_length listHeader_fits (afterLastId cmd ssids)
  rw [ctrlIfaceListNetworks_eq listHeader_fits,List.length_append,List.length_cons]
  change _ + ((listed _ _ _).flatMap _).length < _ at hlen
  rw [listedNetworks]
  omega

/-- The lines that the wrapper finds are those that the daemon wrote. -/
theorem networkLines_listNetworks : networkLines (ctrlIfaceListNetworks replySize cmd ssids) =
    (listedNetworks replySize cmd ssids).map SsidEntry.text := by
  have hlines : (listedNetworks replySize cmd ssids).flatMap SsidEntry.line =
      ((listedNetworks replySize cmd ssids).map SsidEntry.text).flatMap (· ++ [10]) := by
    rw [List.flatMap_map]
    rfl
  rw [ctrlIfaceListNetworks_eq listHeader_fits,hlines]
  apply networkLines_eq
  · exact fun h => (listHeader_clean 10 h).2 rfl
  · intro line hline h
    obtain ⟨ssid,-,rfl⟩ := List.mem_map.mp hline
    exact (ssid.text_clean 10 h).2 rfl

/-- The list holds the decimal ids of the networks that have a line in the reply to
`LIST_NETWORKS`, each once, and nothing else. -/
def Mirrors (networks : List Bytes) (ssids : List SsidEntry) : Prop :=
  networks.Nodup ∧
    ∀ txt, txt ∈ networks ↔ ∃ ssid ∈ listedNetworks replySize none ssids, txt = decimal ssid.id

/-- Only a reply without a line is mirrored by the empty list. -/
theorem Mirrors.of_nil {ssids : List SsidEntry} (h : Mirrors [] ssids) :
    ctrlIfaceListNetworks replySize none ssids = listHeader ++ [10] := by
  have hnil : listedNetworks replySize none ssids = [] := by
    refine List.eq_nil_iff_forall_not_mem.mpr fun ssid hssid => ?_
    have hmem := (h.2 (decimal ssid.id)).mpr ⟨ssid,hssid,rfl⟩
    cases hmem
  rw [ctrlIfaceListNetworks_eq listHeader_fits,hnil]
  rfl

theorem mirrors_networkLines : Mirrors
    ((networkLines (cstr (ctrlIfaceListNetworks replySize none ssids))).foldl
      (cliTxtListAddWord · · 9) []) ssids := by
  have hids : ((listedNetworks replySize none ssids).map SsidEntry.text).map
      (·.takeWhile (· != 9)) = (listedNetworks replySize none ssids).map fun ssid => decimal ssid.id := by
    rw [List.map_map]
    exact List.map_congr_left fun ssid _ => ssid.text_takeWhile
  rw [cstr_eq_self (listNetworks_noNul none ssids),networkLines_listNetworks,
    foldl_cliTxtListAddWord,hids]
  obtain ⟨hnodup,hmem⟩ := foldl_cliTxtListAdd
    ((listedNetworks replySize none ssids).map fun ssid => decimal ssid.id) List.nodup_nil
  refine ⟨hnodup,fun txt => ?_⟩
  rw [hmem,List.mem_map]
  simp [eq_comm]

end Reply

/-- A daemon that answers `LIST_NETWORKS` as `wpa_supplicant_ctrl_iface_list_networks` does, for
the networks `conf` of its state; what it answers to other requests is open. -/
structure ListingDaemon extends Daemon where
  conf : Choice → State → List SsidEntry
  lists : ∀ c s,
    (serve c s (ascii "LIST_NETWORKS")).2 = ctrlIfaceListNetworks replySize none (conf c s)

/-- How the exchange of `update_networks` ends. -/
def listOutcome {D : Daemon} (conn : Option (Conn D)) : Outcome Bytes :=
  conn.elim .unsent fun conn => (conn.exchange (takes 4096) (ascii "LIST_NETWORKS")).2.2

/-- The list after `update_networks` on a connection: empty when its exchange failed, and the
networks of the daemon when it brought the reply to a request `LIST_NETWORKS`. -/
structure Refreshed (D : ListingDaemon) (conn : Option (Conn D.toDaemon))
    (r : Except Fault (Wrapper D.toDaemon)) : Prop where
  failed : (∀ d, listOutcome conn ≠ .got d) → ∃ w, r = .ok w ∧ w.networks = []
  mirrors : ∀ c s, listOutcome conn = .got (D.serve c s (ascii "LIST_NETWORKS")).2 →
    ∃ w, r = .ok w ∧ Mirrors w.networks (D.conf c s)

/-- Request number `k` of the connection is a `LIST_NETWORKS`, and the list mirrors the networks of
the reply that the daemon gives to it, at once or later. -/
def MirrorsReply {D : Daemon} (networks : List Bytes) (conn : Conn D) (k : ℕ) : Prop :=
  ∃ cs ssids, (conn.drain cs).done[k]? =
      some (ascii "LIST_NETWORKS",ctrlIfaceListNetworks replySize none ssids) ∧
    Mirrors networks ssids

/-- What a wrapper has after `update_networks`: an empty list if the exchange failed, and the
networks in the reply to the request that it sent if something was received. -/
structure ListsNetworks {D : Daemon} (before : Option (Conn D)) (w : Wrapper D) : Prop where
  failed : (∀ d, listOutcome before ≠ .got d) → w.networks = []
  mirrors : ∀ conn d, before = some conn → listOutcome before = .got d →
    ∃ conn', w.ctrlConn = some conn' ∧ MirrorsReply w.networks conn' conn.sent.length

section Refreshed
variable {D : ListingDaemon}

theorem updateNetworks_refreshed (w : Wrapper D.toDaemon) :
    Refreshed D w.ctrlConn (updateNetworks w) := by
  cases h : w.ctrlConn with
  | none =>
    rw [updateNetworks_disconnected h]
    exact ⟨fun _ => ⟨_,rfl,rfl⟩,fun c s hgot => by cases hgot⟩
  | some conn =>
    refine ⟨fun hf => ⟨_,updateNetworks_failed h hf,rfl⟩,fun c s hgot => ?_⟩
    rw [D.lists] at hgot
    exact ⟨_,updateNetworks_got h (listNetworks_length none (D.conf c s)) hgot,
      mirrors_networkLines (D.conf c s)⟩

/-- With nothing outstanding, what `update_networks` gets is the reply to its own request. -/
theorem listOutcome_idle {conn : Conn D.toDaemon} (h : conn.Idle (takes 1)) {d : Bytes}
    (hgot : listOutcome (some conn) = .got d) : ∃ c,
      (conn.exchange (takes 4096) (ascii "LIST_NETWORKS")).1.server =
        (D.serve c conn.server (ascii "LIST_NETWORKS")).1 ∧
      (conn.exchange (takes 4096) (ascii "LIST_NETWORKS")).1.done =
        conn.done ++ [(ascii "LIST_NETWORKS",d)] ∧
      d = (D.serve c conn.server (ascii "LIST_NETWORKS")).2 := by
  rw [← takes_eq (show 0 < 4096 by decide)] at h
  rcases h.exchange_cases (skips_takes (by decide)) (ascii "LIST_NETWORKS") with
    ⟨-,-,hnone⟩ | ⟨c,hserver,hdone,hown⟩
  · exact absurd hgot (hnone d)
  · obtain rfl := hown d hgot
    exact ⟨c,hserver,hdone,rfl⟩

/-- With nothing outstanding the list mirrors the reply to its own request. -/
theorem updateNetworks_lists {w : Wrapper D.toDaemon}
    (h : ∀ conn, w.ctrlConn = some conn → conn.Idle (takes 1)) :
    ∃ w', updateNetworks w = .ok w' ∧ ListsNetworks w.ctrlConn w' := by
  have hrefreshed := updateNetworks_refreshed w
  cases hw : w.ctrlConn with
  | none =>
    rw [hw] at hrefreshed
    obtain ⟨w',hw',hnil⟩ := hrefreshed.failed fun d hd => by cases hd
    exact ⟨w',hw',fun _ => hnil,fun conn d hconn => by cases hconn⟩
  | some conn =>
    rw [hw] at hrefreshed
    obtain ⟨networks,hup⟩ := updateNetworks_connected hw (sized_of_idle (h conn hw))
    refine ⟨_,hup,fun hf => ?_,fun conn₁ d hconn hgot => ?_⟩
    · obtain ⟨w',hw',hnil⟩ := hrefreshed.failed hf
      rw [hup] at hw'
      cases hw'
      exact hnil
    · cases hconn
      obtain ⟨c,-,hdone,hreply⟩ := listOutcome_idle (h conn hw) hgot
      obtain ⟨w',hw',hmirrors⟩ := hrefreshed.mirrors c conn.server (hreply ▸ hgot)
      rw [hup] at hw'
      cases hw'
      refine ⟨_,rfl,[],_,?_,hmirrors⟩
      rw [(h conn hw).sent_length,← D.lists c conn.server,← hreply]
      change (conn.exchange (takes 4096) (ascii "LIST_NETWORKS")).1.done[conn.done.length]? = _
      rw [hdone,List.getElem?_concat_length]

end Refreshed

section Execute

/-- The words run `add_network` or `remove_network`. -/
def ChangesNetworks (cfg : BuildConfig) (argv : List Bytes) : Prop :=
  ∃ name args cmd, (stripIfname argv).2 = name :: args ∧ selectCommand cfg name = .found cmd ∧
    (cmd.handlerWithResults = .addNetwork ∨ cmd.handlerWithResults = .removeNetwork)

theorem ChangesNetworks.updates {cfg : BuildConfig} {argv : List Bytes}
    (h : ChangesNetworks cfg argv) : (commandOf cfg argv).updates = true := by
  obtain ⟨name,args,cmd,hargv,hselect,hhandler⟩ := h
  simp only [commandOf,hargv,hselect]
  rcases hhandler with heq | heq
  · rw [heq]
    rfl
  · rw [heq]
    rfl

variable {D : Daemon}

theorem Command.run_updates {c : Command} (hu : c.updates = true) {w : Wrapper D} {buf : Bytes}
    {r : Result D} (h : c.run w buf = .ok r) :
    updateNetworks (c.asked w buf).wrapper = .ok r.wrapper := by
  rw [run,if_pos hu] at h
  change (c.asked w buf).updateNetworks = .ok r at h
  rw [Result.updateNetworks] at h
  cases hw : updateNetworks (c.asked w buf).wrapper with
  | error fault =>
    rw [hw] at h
    cases h
  | ok w' =>
    rw [hw] at h
    cases h
    rfl

theorem wpaCliExecute_run {cfg : BuildConfig} {w : Wrapper D} (hi : w.initialized) {cmd : CString}
    {buf : Bytes} {r : Result D} (h : wpaCliExecute cfg w cmd buf = .ok r) :
    (commandOf cfg (lineWords cmd.bytes)).run w buf = .ok r := by
  by_cases hfits : 1024 ≤ cmd.bytes.length ∨ Overfills kMaxArgs cmd.bytes
  · rw [wpaCliExecute_fault cfg hi hfits] at h
    cases h
  · obtain ⟨hl,ho⟩ := not_or.mp hfits
    rwa [wpaCliExecute_eq cfg hi (not_le.mp hl) ho] at h

end Execute

section Supplicant
variable {F : SsidFields} {answers : Bytes → Prop}

/-- What the reply shows of a network besides what `WpaSsid` holds. -/
structure Shown where
  bssid : Option (Vector UInt8 6)
  current : Bool
  disabledUntil : ℤ

def WpaSsid.entry (shown : WpaSsid F → Shown) (ssid : WpaSsid F) : SsidEntry :=
  ⟨ssid.id,ssid.ssid,(shown ssid).bssid,(shown ssid).current,ssid.disabled,
    (shown ssid).disabledUntil⟩

variable (F answers) in
/-- The supplicant with its reply to `LIST_NETWORKS`. -/
def listingSupplicant : ListingDaemon where
  State := Networks F
  Choice := Circumstance answers (fun _ => True) × (WpaSsid F → Shown)
  serve c nets buf :=
    if buf = ascii "LIST_NETWORKS" then
      (nets,ctrlIfaceListNetworks replySize none (nets.map (WpaSsid.entry c.2)))
    else ctrlIfaceProcess c.1 nets buf
  fits c nets buf := by
    split
    · exact listNetworks_length none _
    · exact process_fits c.1 nets buf
  conf c nets := nets.map (WpaSsid.entry c.2)
  lists c nets := by rw [if_pos rfl]

end Supplicant

section Runs
variable {D : ListingDaemon} {cfg : BuildConfig}

/-- Nothing is outstanding on the connection, and what is sent gets served in time. -/
def Wrapper.Settled {D : Daemon} (w : Wrapper D) : Prop :=
  ∀ conn, w.ctrlConn = some conn → conn.Idle (takes 1) ∧ Link.Settles conn.env

/-- The wrapper after some commands, each with the buffer of its caller. -/
def executeAll {D : Daemon} (cfg : BuildConfig) :
    Wrapper D → List (CString × Bytes) → Except Fault (Wrapper D)
  | w, [] => .ok w
  | w, (cmd,buf) :: rest => do executeAll cfg (← wpaCliExecute cfg w cmd buf).wrapper rest

theorem Command.asked_ctrlConn {D : Daemon} (c : Command) (w : Wrapper D) {buf : Bytes}
    (hn : 0 < buf.length) : (c.asked w buf).wrapper.ctrlConn =
      w.ctrlConn.map fun conn => (c.first buf.length conn).1 := by
  cases h : w.ctrlConn with
  | none =>
    obtain ⟨out,hasked⟩ := c.asked_disconnected h buf
    rw [hasked]
    exact h
  | some conn =>
    obtain ⟨out,hw,-⟩ := c.asked_connected h hn
    rw [hw,Option.map_some]

/-- A command leaves nothing outstanding. -/
theorem wpaCliExecute_settled {D : Daemon} {w : Wrapper D} (h : w.Settled) {cmd : CString}
    {buf : Bytes} (hn : 2 ≤ buf.length) {r : Result D} (hr : wpaCliExecute cfg w cmd buf = .ok r) :
    r.wrapper.Settled := by
  cases hi : w.initialized with
  | false =>
    rw [wpaCliExecute,if_pos (by simp [hi])] at hr
    cases hr
    exact h
  | true =>
    have hrun := wpaCliExecute_run hi hr
    generalize commandOf cfg (lineWords cmd.bytes) = c at hrun
    intro conn' hconn'
    cases hw : w.ctrlConn with
    | none =>
      obtain ⟨networks,out,hnone⟩ := c.run_disconnected hw buf
      rw [hnone] at hrun
      cases hrun
      rw [show _ = none from hw] at hconn'
      cases hconn'
    | some conn =>
      obtain ⟨hidle,hs⟩ := h conn hw
      obtain ⟨r',networks,out,hr',hwrapper,-⟩ :=
        c.run_connected hw (sized_of_idle hidle) (show 0 < buf.length by omega)
      rw [hrun] at hr'
      cases hr'
      rw [hwrapper] at hconn'
      cases hconn'
      obtain ⟨hidle',hs'⟩ := Command.first_settle (c := c) hn hidle hs
      exact Command.finish_settle hidle' hs'

/-- A call that stays inside the arrays of the wrapper, with room for a byte of the reply. -/
structure CallFits (call : CString × Bytes) : Prop where
  short : call.1.bytes.length < 1024
  fits : ¬ Overfills kMaxArgs call.1.bytes
  room : 2 ≤ call.2.length

variable (cfg) in
theorem wpaCliExecute_ok {D : Daemon} {w : Wrapper D} (h : w.Settled) {call : CString × Bytes}
    (hc : CallFits call) : ∃ r, wpaCliExecute cfg w call.1 call.2 = .ok r := by
  cases hi : w.initialized with
  | false => exact ⟨⟨w,-1,call.2⟩,if_pos (by simp [hi])⟩
  | true =>
    rw [wpaCliExecute_eq cfg hi hc.short hc.fits]
    generalize commandOf cfg (lineWords call.1.bytes) = c
    cases hw : w.ctrlConn with
    | none =>
      obtain ⟨networks,out,hrun⟩ := c.run_disconnected hw call.2
      exact ⟨_,hrun⟩
    | some conn =>
      have hroom := hc.room
      obtain ⟨r,networks,out,hrun,-⟩ :=
        c.run_connected hw (sized_of_idle (h conn hw).1) (show 0 < call.2.length by omega)
      exact ⟨r,hrun⟩

theorem executeAll_settled {D : Daemon} {w w' : Wrapper D} (h : w.Settled)
    {calls : List (CString × Bytes)} (hn : ∀ call ∈ calls, 2 ≤ call.2.length)
    (hr : executeAll cfg w calls = .ok w') : w'.Settled := by
  induction calls generalizing w with
  | nil =>
    cases hr
    exact h
  | cons call rest ih =>
    rw [executeAll] at hr
    cases hx : wpaCliExecute cfg w call.1 call.2 with
    | error fault =>
      rw [hx] at hr
      cases hr
    | ok r =>
      rw [hx] at hr
      have hsettled := wpaCliExecute_settled h (hn call List.mem_cons_self) hx
      exact ih hsettled (fun c hc => hn c (List.mem_cons_of_mem _ hc)) hr

variable (cfg) in
theorem executeAll_ok {D : Daemon} {w : Wrapper D} (h : w.Settled) {calls : List (CString × Bytes)}
    (hc : ∀ call ∈ calls, CallFits call) : ∃ w', executeAll cfg w calls = .ok w' := by
  induction calls generalizing w with
  | nil => exact ⟨w,rfl⟩
  | cons call rest ih =>
    have hcall := hc call List.mem_cons_self
    obtain ⟨r,hr⟩ := wpaCliExecute_ok cfg h hcall
    obtain ⟨w',hw'⟩ := ih (wpaCliExecute_settled h hcall.room hr)
      fun c hrest => hc c (List.mem_cons_of_mem _ hrest)
    refine ⟨w',?_⟩
    rw [executeAll,hr]
    exact hw'

/-- Behind its own exchange a command leaves nothing outstanding for `update_networks`. -/
theorem Command.asked_idle {D : Daemon} (c : Command) {w : Wrapper D} (h : w.Settled) {buf : Bytes}
    (hn : 2 ≤ buf.length) :
    ∀ conn, (c.asked w buf).wrapper.ctrlConn = some conn → conn.Idle (takes 1) := by
  intro conn hconn
  rw [c.asked_ctrlConn w (show 0 < buf.length by omega)] at hconn
  obtain ⟨conn₀,hw,rfl⟩ := Option.map_eq_some_iff.mp hconn
  obtain ⟨hidle,hs⟩ := h conn₀ hw
  exact (Command.first_settle hn hidle hs).1

/-- In a run that starts with nothing outstanding and in which every request is served in time,
`update_networks` leaves the networks of the reply to its own request, and so do all commands that
add or remove a network. -/
theorem networks_mirror (D : ListingDaemon) (cfg : BuildConfig) {w : Wrapper D.toDaemon}
    (h : w.Settled) {calls : List (CString × Bytes)} (hcalls : ∀ call ∈ calls, CallFits call) :
    ∃ w₁, executeAll cfg w calls = .ok w₁ ∧
      (∃ w₂, updateNetworks w₁ = .ok w₂ ∧ ListsNetworks w₁.ctrlConn w₂) ∧
      ∀ call, CallFits call → w₁.initialized → ChangesNetworks cfg (lineWords call.1.bytes) →
        ∃ r, wpaCliExecute cfg w₁ call.1 call.2 = .ok r ∧
          ListsNetworks ((commandOf cfg (lineWords call.1.bytes)).asked w₁ call.2).wrapper.ctrlConn
            r.wrapper := by
  obtain ⟨w₁,hw₁⟩ := executeAll_ok cfg h hcalls
  have hsettled := executeAll_settled h (fun call hc => (hcalls call hc).room) hw₁
  refine ⟨w₁,hw₁,updateNetworks_lists fun conn hconn => (hsettled conn hconn).1,?_⟩
  intro call hc hi hcmd
  obtain ⟨r,hr⟩ := wpaCliExecute_ok cfg hsettled hc
  obtain ⟨w₂,hw₂,hlists⟩ := updateNetworks_lists
    ((commandOf cfg (lineWords call.1.bytes)).asked_idle hsettled hc.room)
  rw [Command.run_updates hcmd.updates (wpaCliExecute_run hi hr)] at hw₂
  cases hw₂
  exact ⟨r,hr,hlists⟩

/-- In a run in which every request is served in time, the list is empty after a command that adds
or removes a network, or it mirrors the state that the daemon listed. -/
theorem executeAll_mirrors {w w₁ : Wrapper D.toDaemon} (h : w.Settled) (hi : w₁.initialized)
    {calls : List (CString × Bytes)} (hn : ∀ call ∈ calls, 2 ≤ call.2.length)
    (hw₁ : executeAll cfg w calls = .ok w₁) {cmd : CString} {buf : Bytes} (hbuf : 2 ≤ buf.length)
    (hcmd : ChangesNetworks cfg (lineWords cmd.bytes)) {r : Result D.toDaemon}
    (hr : wpaCliExecute cfg w₁ cmd buf = .ok r) :
    r.wrapper.networks = [] ∨ ∃ c s conn', Mirrors r.wrapper.networks (D.conf c s) ∧
      r.wrapper.ctrlConn = some conn' ∧
      conn'.server = (D.serve c s (ascii "LIST_NETWORKS")).1 := by
  have hup := Command.run_updates hcmd.updates (wpaCliExecute_run hi hr)
  generalize commandOf cfg (lineWords cmd.bytes) = c at hup
  have hconn := c.asked_ctrlConn w₁ (show 0 < buf.length by omega)
  have hrefreshed := updateNetworks_refreshed (c.asked w₁ buf).wrapper
  rw [hup] at hrefreshed
  by_cases hgot : ∃ d, listOutcome (c.asked w₁ buf).wrapper.ctrlConn = .got d
  · obtain ⟨d,hd⟩ := hgot
    right
    cases hw : w₁.ctrlConn with
    | none =>
      rw [hconn,hw] at hd
      cases hd
    | some conn =>
      rw [hw] at hconn
      have hidle₁ := c.asked_idle (executeAll_settled h hn hw₁) hbuf _ hconn
      rw [hconn] at hd
      obtain ⟨c',hserver,-,rfl⟩ := listOutcome_idle hidle₁ hd
      obtain ⟨networks,hconnected⟩ := updateNetworks_connected hconn (sized_of_idle hidle₁)
      obtain ⟨w',hw',hmirrors⟩ := hrefreshed.mirrors c' _ (by rw [hconn]; exact hd)
      rw [hup] at hconnected
      cases hw'
      refine ⟨c',_,_,hmirrors,?_,hserver⟩
      exact congrArg Wrapper.ctrlConn (Except.ok.inj hconnected)
  · left
    obtain ⟨w',hw',hnil⟩ := hrefreshed.failed fun d hd => hgot ⟨d,hd⟩
    cases hw'
    exact hnil

theorem takes_listNetworks (ssids : List SsidEntry) :
    takes 1 (ctrlIfaceListNetworks replySize none ssids) = true := by
  rw [ctrlIfaceListNetworks_eq listHeader_fits]
  rfl

/-- A request that changes the networks, with both exchanges served at once: afterwards the list
mirrors what the daemon has made of its networks. -/
theorem execute_mirrors {w : Wrapper D.toDaemon} {conn : Conn D.toDaemon} (hi : w.initialized)
    (hw : w.ctrlConn = some conn) (hidle : conn.Idle (takes 1)) {c c' : D.Choice}
    {env : List (Delivery D.server)} (henv : conn.env = Link.atOnce c :: Link.atOnce c' :: env)
    {cmd : CString} (hl : cmd.bytes.length < 1024) (ho : ¬ Overfills kMaxArgs cmd.bytes)
    {command : Command} (hc : commandOf cfg (lineWords cmd.bytes) = command)
    (hu : command.updates = true) {text : Bytes} (hp : command.plan = .ask text) {buf : Bytes}
    (hn : 2 ≤ buf.length) : ∃ r, wpaCliExecute cfg w cmd buf = .ok r ∧
      Mirrors r.wrapper.networks
        (D.conf c' (D.serve c conn.server (command.request buf.length text)).1) := by
  obtain ⟨r,networks,out,hrun,-⟩ :=
    command.run_connected hw (sized_of_idle hidle) (show 0 < buf.length by omega)
  refine ⟨r,by rw [wpaCliExecute_eq cfg hi hl ho,hc,hrun],?_⟩
  have hconn := command.asked_ctrlConn w (show 0 < buf.length by omega)
  rw [hw,Option.map_some] at hconn
  simp only [Command.first,hp,takes_eq (show 0 < buf.length-1 by omega)] at hconn
  obtain ⟨hidle₁,henv₁,hserver₁,-,-⟩ := hidle.exchange_atOnce (skips_takes Nat.one_pos) henv
    (command.request buf.length text)
  generalize (conn.exchange (takes 1) (command.request buf.length text)).1 = conn₁ at *
  obtain ⟨-,-,-,-,hgot⟩ :=
    hidle₁.exchange_atOnce (skips_takes Nat.one_pos) henv₁ (ascii "LIST_NETWORKS")
  have hreply := D.lists c' conn₁.server
  have houtcome : listOutcome (command.asked w buf).wrapper.ctrlConn =
      .got (D.serve c' conn₁.server (ascii "LIST_NETWORKS")).2 := by
    rw [hconn,listOutcome,Option.elim_some,takes_eq (show 0 < 4096 by decide)]
    exact hgot (by rw [show (D.server.serve _ _ _).2 = _ from hreply]; exact takes_listNetworks _)
  obtain ⟨w',hw',hmirrors⟩ := (updateNetworks_refreshed _).mirrors c' conn₁.server houtcome
  rw [Command.run_updates hu hrun] at hw'
  cases hw'
  have hstate : conn₁.server = (D.serve c conn.server (command.request buf.length text)).1 := hserver₁
  exact hstate ▸ hmirrors

/-- After `add_network` the list mirrors the networks with the new one. -/
theorem addNetwork_mirrors {F : SsidFields} {answers : Bytes → Prop}
    {w : Wrapper (listingSupplicant F answers).toDaemon}
    {conn : Conn (listingSupplicant F answers).toDaemon} {nets : Networks F} (hi : w.initialized)
    (hw : w.ctrlConn = some conn) (hidle : conn.Idle (takes 1)) (hnets : conn.server = nets)
    {c c' : Circumstance answers (fun _ => True) × (WpaSsid F → Shown)} (hc : c.1.refusal = none)
    {env : List (Delivery (listingSupplicant F answers).server)}
    (henv : conn.env = Link.atOnce c :: Link.atOnce c' :: env) {buf : Bytes}
    (hn : 2 ≤ buf.length) :
    ∃ r, wpaCliExecute cfg w ⟨ascii "add_network",by decide⟩ buf = .ok r ∧
      Mirrors r.wrapper.networks ((nets ++ [newNetwork nets]).map (WpaSsid.entry c'.2)) := by
  have hl : (ascii "add_network").length < 1024 := by decide
  have ho : ¬ Overfills kMaxArgs (ascii "add_network") := by decide
  obtain ⟨r,hr,hmirrors⟩ := execute_mirrors hi hw hidle henv
    (show (⟨ascii "add_network",by decide⟩ : CString).bytes.length < 1024 from hl) ho
    (commandOf_addNetwork cfg) rfl rfl hn
  have hserve : ((listingSupplicant F answers).serve c nets (ascii "ADD_NETWORK")).1 =
      nets ++ [newNetwork nets] := by
    change (ctrlIfaceProcess c.1 nets (ascii "ADD_NETWORK")).1 = _
    rw [process_add,hc]
    rfl
  rw [hnets] at hmirrors
  exact ⟨r,hr,hserve ▸ hmirrors⟩

end Runs

section Late

def statusCmd : CString := ⟨ascii "status",status_noNul⟩
def addNetworkCmd : CString := ⟨ascii "add_network",addNetwork_noNul⟩
def callBuf : Bytes := List.replicate 16 0

theorem statusCmd_fits : CallFits (statusCmd,callBuf) := ⟨by decide,by decide,by decide⟩
theorem addNetworkCmd_fits : CallFits (addNetworkCmd,callBuf) := ⟨by decide,by decide,by decide⟩

theorem addNetworkCmd_changes (cfg : BuildConfig) :
    ChangesNetworks cfg (lineWords addNetworkCmd.bytes) := by
  have hwords : lineWords addNetworkCmd.bytes = [ascii "add_network"] := by decide
  rw [hwords]
  exact ⟨_,_,_,rfl,select_add_network cfg,.inl rfl⟩

variable {D : Daemon}

theorem executeAll_status {w : Wrapper D} {conn : Conn D} (hi : w.initialized)
    (hw : w.ctrlConn = some conn) (hidle : conn.Idle (takes 1)) :
    ∃ w', executeAll (fun _ => false) w [(statusCmd,callBuf)] = .ok w' ∧ w'.initialized ∧
      w'.ctrlConn = some (conn.exchange (takes 1) (ascii "STATUS")).1 := by
  have hcommand : commandOf (fun _ => false) (lineWords statusCmd.bytes) =
    ⟨none,.ask (ascii "STATUS"),false⟩ := commandOf_status
  obtain ⟨r,networks,out,hrun,hr,-⟩ := Command.run_connected ⟨none,.ask (ascii "STATUS"),false⟩ hw
    (sized_of_idle hidle) (show 0 < callBuf.length by decide)
  have hx := wpaCliExecute_eq (fun _ => false) hi statusCmd_fits.short statusCmd_fits.fits callBuf
  rw [hcommand,hrun] at hx
  refine ⟨r.wrapper,?_,?_,?_⟩
  · rw [executeAll,hx]
    rfl
  · rw [hr]
    exact hi
  · rw [hr,← takes_eq (show 0 < callBuf.length-1 by decide)]
    rfl

/-- Every request is performed, and `STATUS` is answered with a text. -/
def reporting : AnyCircumstance × (WpaSsid noFields → Shown) :=
  (⟨none,⟨ascii "wpa_state=COMPLETED\n",by decide,trivial⟩⟩,fun _ => ⟨none,false,0⟩)

abbrev LateDaemon : ListingDaemon := listingSupplicant noFields fun _ => True

/-- A daemon with one network. -/
def lateConn (env : List (Delivery LateDaemon.server)) : Conn LateDaemon.toDaemon :=
  { freshConn [newNetwork []] with env := env }

/-- A network without an SSID always finds room at the head of the reply. -/
theorem listed_fresh (shown : WpaSsid noFields → Shown) (nets : Networks noFields) :
    ctrlIfaceListNetworks replySize none ((newNetwork [] :: nets).map (WpaSsid.entry shown)) ≠
      listHeader ++ [10] := by
  have hhead : ((newNetwork []).entry shown).headTxt.length = 2 := rfl
  have hbssid : ((newNetwork []).entry shown).bssidTxt.length ≤ 18 := by
    rw [SsidEntry.bssidTxt,List.length_cons]
    cases ((newNetwork []).entry shown).bssid with
    | none => decide
    | some bssid =>
      have hlen : bssid.toList.length = 6 := by simp
      have hmac := macStr_length (List.ne_nil_of_length_pos (show 0 < bssid.toList.length by omega))
      simp only [Option.elim_some]
      omega
  have hflags : ((newNetwork []).entry shown).flagsTxt.length ≤ 64 := by
    rw [SsidEntry.flagsTxt]
    split_ifs
    all_goals decide
  have hline : ((newNetwork []).entry shown).line.length < 100 := by
    rw [SsidEntry.line,SsidEntry.text,List.length_append,List.length_append,List.length_append,
      List.length_singleton]
    omega
  have hheader : listHeader.length+1 ≤ 40 := by decide
  rw [ctrlIfaceListNetworks_eq listHeader_fits,listedNetworks,afterLastId,List.map_cons,listed,
    if_pos (by rw [replySize]; omega)]
  intro heq
  have hline : SsidEntry.line _ ++ _ = [] := (List.cons.inj (List.append_cancel_left heq)).2
  rw [SsidEntry.line,List.append_assoc] at hline
  exact List.cons_ne_nil _ _ (List.append_eq_nil_iff.mp hline).2

/-- An empty list does not mirror the reply that the daemon has still to give. -/
theorem not_mirrorsReply_nil {taken : Bytes → Bool} {conn : Conn LateDaemon.toDaemon}
    {nets : Networks noFields} (h : conn.Lone taken (ascii "LIST_NETWORKS"))
    (hserver : conn.server = newNetwork [] :: nets) : ¬ MirrorsReply [] conn conn.done.length := by
  rintro ⟨cs,ssids,hk,hmirrors⟩
  rw [hmirrors.of_nil] at hk
  cases cs with
  | nil =>
    have hk : conn.done[conn.done.length]? = some _ := hk
    rw [List.getElem?_eq_none le_rfl] at hk
    cases hk
  | cons c cs =>
    rw [h.drain_done,List.getElem?_append_right le_rfl,Nat.sub_self] at hk
    have hlisted := congrArg Prod.snd (Option.some.inj hk)
    rw [hserver] at hlisted
    exact listed_fresh c.2 nets hlisted

/-- The reply to `status` comes after the wait for it has ended: `add_network` takes it for its own
and succeeds, and the list stays empty although the daemon has two networks. -/
theorem networks_mirror_late :
    ∃ (w₁ : Wrapper LateDaemon.toDaemon) (r : Result LateDaemon.toDaemon) (conn : Conn LateDaemon.toDaemon),
      executeAll (fun _ => false)
        (.connected (lateConn [⟨[],true,[]⟩,Link.atOnce reporting,Link.atOnce reporting]))
        [(statusCmd,callBuf)] = .ok w₁ ∧
      wpaCliExecute (fun _ => false) w₁ addNetworkCmd callBuf = .ok r ∧ r.ret = 0 ∧
      r.wrapper.ctrlConn = some conn ∧ (conn.server : Networks noFields).map (·.id) = [0,1] ∧
      r.wrapper.networks = [] ∧
      ¬ ListsNetworks ((commandOf (fun _ => false) (lineWords addNetworkCmd.bytes)).asked w₁
        callBuf).wrapper.ctrlConn r.wrapper := by
  have hidle : (lateConn [⟨[],true,[]⟩,Link.atOnce reporting,Link.atOnce reporting]).Idle (takes 1) :=
    ⟨rfl,fun _ h => by cases h⟩
  obtain ⟨w₁,hrun₁,hi₁,hw₁⟩ := executeAll_status (w := .connected (lateConn _)) rfl rfl hidle
  obtain ⟨henv₁,hinbox₁,hserver₁,-,hwaiting₁,-⟩ :=
    Link.exchange_silent rfl hidle.quiet (ascii "STATUS")
  generalize (Link.exchange (takes 1) (ascii "STATUS") (lateConn _)).1 = conn₁ at *
  have hlone₁ : conn₁.Lone (takes 1) (ascii "STATUS") := ⟨hwaiting₁,by rw [hinbox₁]; simp⟩
  have hsized₁ : Sized conn₁ := fun r hr => by rw [hinbox₁] at hr; cases hr
  -- `add_network` takes the reply to `status`, and `update_networks` the id of the new network
  obtain ⟨hlone₂,henv₂,hserver₂,-,hgot₂⟩ :=
    hlone₁.exchange_atOnce henv₁ rfl (ascii "ADD_NETWORK")
  have hcommand : commandOf (fun _ => false) (lineWords addNetworkCmd.bytes) =
    ⟨none,.ask (ascii "ADD_NETWORK"),true⟩ := commandOf_addNetwork _
  have hroom : 0 < callBuf.length := by decide
  obtain ⟨r,networks,out,hrun,hr,hret,-⟩ :=
    Command.run_connected ⟨none,.ask (ascii "ADD_NETWORK"),true⟩ hw₁ hsized₁ hroom
  have hasked := Command.asked_ctrlConn ⟨none,.ask (ascii "ADD_NETWORK"),true⟩ w₁ hroom
  have hfirst : Command.first ⟨none,.ask (ascii "ADD_NETWORK"),true⟩ callBuf.length conn₁ =
      conn₁.exchange (takes 1) (ascii "ADD_NETWORK") := by
    rw [← takes_eq (show 0 < callBuf.length-1 by decide)]
    rfl
  rw [hw₁,Option.map_some,hfirst] at hasked
  rw [hfirst] at hr hret
  generalize (Link.exchange (takes 1) (ascii "ADD_NETWORK") conn₁).1 = conn₂ at *
  have hnets : conn₂.server = [newNetwork []] := hserver₂.trans (by rw [hserver₁]; rfl)
  have hreply : (LateDaemon.server.serve reporting conn₂.server (ascii "ADD_NETWORK")).2 = [49,10] := by
    rw [hnets]
    rfl
  obtain ⟨hlone₃,-,hserver₃,hdone₃,hgot₃⟩ := hlone₂.exchange_atOnce henv₂
    (by rw [hreply]; rfl) (ascii "LIST_NETWORKS")
  rw [← takes_eq (show 0 < 4096 by decide)] at hlone₃ hserver₃ hdone₃ hgot₃
  rw [hreply] at hgot₃
  have hnil := updateNetworks_got hasked (show [49,10].length < 4096 by decide) hgot₃
  rw [Command.run_updates rfl hrun] at hnil
  have hx := wpaCliExecute_eq (fun _ => false) hi₁ addNetworkCmd_fits.short addNetworkCmd_fits.fits
    callBuf
  rw [hcommand,hrun] at hx
  have hret : r.ret = 0 := by rw [hret,hgot₂]; rfl
  have hnetworks : r.wrapper.networks = [] := congrArg Wrapper.networks (Except.ok.inj hnil)
  have hconn := congrArg Wrapper.ctrlConn (Except.ok.inj hnil)
  refine ⟨w₁,r,_,hrun₁,hx,hret,hconn,?_,hnetworks,?_⟩
  · rw [hserver₃,hnets]
    rfl
  · intro hlists
    obtain ⟨conn',hconn',hmirrors⟩ := hlists.mirrors conn₂ _ (by rw [hcommand,hasked])
      (by rw [hcommand,hasked]; exact hgot₃)
    rw [hconn] at hconn'
    cases hconn'
    rw [hnetworks] at hmirrors
    have hindex : conn₂.sent.length =
        (conn₂.exchange (takes 4096) (ascii "LIST_NETWORKS")).1.done.length := by
      rw [hdone₃,Link.sent,hlone₂.last]
      simp
    exact not_mirrorsReply_nil hlone₃ (hserver₃.trans (by rw [hnets]; rfl)) (hindex ▸ hmirrors)

/-- With every request served in time, both networks are listed. -/
theorem networks_mirror_added : ∃ (w₁ : Wrapper LateDaemon.toDaemon) (r : Result LateDaemon.toDaemon),
    executeAll (fun _ => false) (.connected (lateConn (List.replicate 3 (Link.atOnce reporting))))
      [(statusCmd,callBuf)] = .ok w₁ ∧
    wpaCliExecute (fun _ => false) w₁ addNetworkCmd callBuf = .ok r ∧
    ListsNetworks ((commandOf (fun _ => false) (lineWords addNetworkCmd.bytes)).asked w₁
      callBuf).wrapper.ctrlConn r.wrapper ∧
    ∀ txt, txt ∈ r.wrapper.networks ↔ txt = ascii "0" ∨ txt = ascii "1" := by
  have hidle : (lateConn (List.replicate 3 (Link.atOnce reporting))).Idle (takes 1) :=
    ⟨rfl,fun _ h => by cases h⟩
  have hsettled : (Wrapper.connected (lateConn (List.replicate 3 (Link.atOnce reporting)))).Settled := by
    rintro conn ⟨⟩
    refine ⟨hidle,fun d hd _ => ?_⟩
    rw [List.eq_of_mem_replicate hd]
    rfl
  have hfits : ∀ call ∈ [(statusCmd,callBuf)], CallFits call := by
    intro call hcall
    rw [List.mem_singleton.mp hcall]
    exact statusCmd_fits
  obtain ⟨w₁,hrun,-,hmirror⟩ := networks_mirror LateDaemon (fun _ => false) hsettled hfits
  obtain ⟨w₁',hrun',hi,hw⟩ := executeAll_status (w := .connected (lateConn _)) rfl rfl hidle
  rw [hrun] at hrun'
  cases hrun'
  obtain ⟨r,hr,hlists⟩ := hmirror (addNetworkCmd,callBuf) addNetworkCmd_fits hi
    (addNetworkCmd_changes _)
  obtain ⟨hidle₁,henv₁,hserver₁,-⟩ :=
    hidle.exchange_atOnce (skips_takes Nat.one_pos) rfl (ascii "STATUS")
  obtain ⟨r',hr',-,hmem⟩ := addNetwork_mirrors hi hw hidle₁
    (show _ = [newNetwork []] from hserver₁) rfl henv₁ (show 2 ≤ callBuf.length by decide)
  rw [show wpaCliExecute _ _ addNetworkCmd _ = _ from hr'] at hr
  cases hr
  refine ⟨w₁,r,hrun,hr',hlists,fun txt => ?_⟩
  have hlisted : listedNetworks replySize none
      (([newNetwork []] ++ [newNetwork [newNetwork []]]).map (WpaSsid.entry reporting.2)) =
        [(newNetwork []).entry reporting.2,(newNetwork [newNetwork []]).entry reporting.2] := rfl
  rw [hmem,hlisted]
  simp only [List.mem_cons,List.not_mem_nil,or_false,exists_eq_or_imp,exists_eq_left]
  rfl

end Late

end WpaCliWrapper
