import WpaCliWrapper.Wrapper.Plan

/-! One exchange on the control socket as each transport sees it. -/
namespace WpaCliWrapper
open CText Exchange

variable {D : Daemon}

theorem ctrlCommand_disconnected {w : Wrapper D} (h : w.ctrlConn = none) (cmd : Bytes)
    (print : Bool) (buf : Bytes) :
    ctrlCommand w cmd print buf = ⟨w.print notConnected,-1,buf⟩ := by
  unfold ctrlCommand
  rw [h]

theorem putRequest_length (w : Wrapper D) (cmd : Bytes) {buf : Bytes} (hn : 0 < buf.length) :
    (w.putRequest (w.request buf.length cmd) buf).length = buf.length := by
  unfold Wrapper.putRequest Wrapper.request
  cases w.ifnamePrefix with
  | none => rfl
  | some name =>
    have hc := clip_length_lt (ifnameText name cmd) hn
    rw [terminate_length]
    exact overwrite_length (by simp; omega)

/-- What a transport does with a connected socket: one exchange, whose reply ends up in the
buffer, cut to its size and terminated. -/
theorem ctrlCommand_connected {w : Wrapper D} {conn : Conn D} (h : w.ctrlConn = some conn)
    (cmd : Bytes) (print : Bool) {buf : Bytes} (hn : 0 < buf.length) :
    ∃ out, (ctrlCommand w cmd print buf).wrapper =
        { w with ctrlConn := some
                  (conn.exchange (takes (buf.length-1)) (w.request buf.length cmd)).1,
                 stdout := w.stdout ++ out } ∧
      (ctrlCommand w cmd print buf).buf.length = buf.length ∧
      (ctrlCommand w cmd print buf).ret =
        code (conn.exchange (takes (buf.length-1)) (w.request buf.length cmd)).2.2 ∧
      ∀ r, (conn.exchange (takes (buf.length-1)) (w.request buf.length cmd)).2.2 = .got r →
        Holds (ctrlCommand w cmd print buf).buf (r.take (buf.length-1)) ∧
        (print → ∃ pre, out = pre ++ [cstr (r.take (buf.length-1))]) := by
  have hlen := putRequest_length w cmd hn
  have hroom : buf.length-1 ≤ (w.putRequest (w.request buf.length cmd) buf).length := by omega
  obtain ⟨hconn,hbuf,hret,hgot⟩ :=
    wpaCtrlRequest_spec conn (w.request buf.length cmd) hroom true
  unfold ctrlCommand
  rw [h]
  dsimp only
  generalize wpaCtrlRequest conn (w.request buf.length cmd)
    (w.putRequest (w.request buf.length cmd) buf) (buf.length-1) true = r at *
  generalize conn.exchange (takes (buf.length-1)) (w.request buf.length cmd) = x at *
  generalize w.putRequest (w.request buf.length cmd) buf = buf₁ at *
  cases hx : x.2.2 with
  | unsent =>
    have hret : r.ret = -1 := by rw [hret,hx]; rfl
    rw [if_neg (by omega),if_pos (by omega)]
    exact ⟨_,by rw [hconn,Wrapper.print,List.append_assoc],hbuf.trans hlen,rfl,by simp⟩
  | failed =>
    have hret : r.ret = -1 := by rw [hret,hx]; rfl
    rw [if_neg (by omega),if_pos (by omega)]
    exact ⟨_,by rw [hconn,Wrapper.print,List.append_assoc],hbuf.trans hlen,rfl,by simp⟩
  | silence =>
    have hret : r.ret = -2 := by rw [hret,hx]; rfl
    rw [if_pos hret]
    exact ⟨_,by rw [hconn,Wrapper.print,List.append_assoc],hbuf.trans hlen,rfl,by simp⟩
  | got d =>
    have hret : r.ret = 0 := by rw [hret,hx]; rfl
    obtain ⟨hl,buf₂,hbuf₂,hr⟩ := hgot d hx
    rw [if_neg (by omega),if_neg (by omega)]
    have hd : (d.take (buf.length-1)).length < buf₂.length := by simp; omega
    have hh := holds_terminate_overwrite hd
    rw [← hr,← hl] at hh
    have hlen' : (terminate r.reply r.replyLen).length = buf.length := by simp [hbuf,hlen]
    cases print with
    | false =>
      refine ⟨_,by rw [hconn]; rfl,hlen',rfl,fun d' hd' => ?_⟩
      cases hd'
      exact ⟨hh,by simp⟩
    | true =>
      refine ⟨r.messages.map (· ++ [10]) ++ [cstr (d.take (buf.length-1))],?_,hlen',rfl,
        fun d' hd' => ?_⟩
      · rw [if_pos rfl,Wrapper.print,hconn,hh.cstr_eq,List.append_assoc]
      · cases hd'
        exact ⟨hh,fun _ => ⟨_,rfl⟩⟩

/-- The printing transport: the reply is the last text it prints. -/
theorem wpaCtrlCommand_connected {w : Wrapper D} {conn : Conn D} (h : w.ctrlConn = some conn)
    (cmd : Bytes) : ∃ out, (wpaCtrlCommand w cmd).1 =
        { w with ctrlConn := some (conn.exchange (takes 4095) (w.request 4096 cmd)).1,
                 stdout := w.stdout ++ out } ∧
      (wpaCtrlCommand w cmd).2 = code (conn.exchange (takes 4095) (w.request 4096 cmd)).2.2 ∧
      ∀ r, (conn.exchange (takes 4095) (w.request 4096 cmd)).2.2 = .got r →
        ∃ pre, out = pre ++ [cstr (r.take 4095)] := by
  have hlen : (List.replicate 4096 (0 : UInt8)).length = 4096 := List.length_replicate
  unfold wpaCtrlCommand
  generalize List.replicate 4096 (0 : UInt8) = buf at hlen
  obtain ⟨out,hw,-,hret,hgot⟩ := ctrlCommand_connected h cmd true (show 0 < buf.length by omega)
  rw [hlen] at hw hret hgot
  exact ⟨out,hw,hret,fun r hr => (hgot r hr).2 rfl⟩

theorem updateNetworks_disconnected {w : Wrapper D} (h : w.ctrlConn = none) :
    updateNetworks w = .ok { w with networks := [] } := by
  unfold updateNetworks
  simp only [h]

section UpdateNetworks
variable {w : Wrapper D} {conn : Conn D} (h : w.ctrlConn = some conn)
include h

/-- Without a reply the list stays empty. -/
theorem updateNetworks_failed
    (hf : ∀ d, (conn.exchange (takes 4096) (ascii "LIST_NETWORKS")).2.2 ≠ .got d) :
    updateNetworks w =
      .ok { w with ctrlConn := some (conn.exchange (takes 4096) (ascii "LIST_NETWORKS")).1,
                   networks := [] } := by
  have hlen : 4096 ≤ (List.replicate 4096 (0 : UInt8)).length := by rw [List.length_replicate]
  obtain ⟨hconn,-,hret,-⟩ := wpaCtrlRequest_spec conn (ascii "LIST_NETWORKS") hlen false
  have hneg : (wpaCtrlRequest conn (ascii "LIST_NETWORKS") (List.replicate 4096 0) 4096 false).ret < 0 := by
    by_contra hret'
    obtain ⟨d,hd⟩ := code_nonneg (hret ▸ not_lt.mp hret')
    exact hf d hd
  unfold updateNetworks
  rw [h]
  dsimp only
  rw [if_pos hneg,hconn]

/-- A reply that leaves room for its end becomes the list of the first words of its lines. -/
theorem updateNetworks_got {d : Bytes} (hd : d.length < 4096)
    (hgot : (conn.exchange (takes 4096) (ascii "LIST_NETWORKS")).2.2 = .got d) :
    updateNetworks w =
      .ok { w with ctrlConn := some (conn.exchange (takes 4096) (ascii "LIST_NETWORKS")).1,
                   networks := (networkLines (cstr d)).foldl (cliTxtListAddWord · · 9) [] } := by
  have hlen : (List.replicate 4096 (0 : UInt8)).length = 4096 := List.length_replicate
  obtain ⟨hconn,-,hret,hreply⟩ := wpaCtrlRequest_spec conn (ascii "LIST_NETWORKS") hlen.ge false
  obtain ⟨hl,buf,hbuf,hr⟩ := hreply d hgot
  rw [List.take_of_length_le hd.le] at hl hr
  have hroom : d.length < buf.length := by rwa [hbuf,hlen]
  have hhold := holds_terminate_overwrite hroom
  have hzero : ¬ code (conn.exchange (takes 4096) (ascii "LIST_NETWORKS")).2.2 < 0 := by
    rw [hgot]
    exact lt_irrefl 0
  unfold updateNetworks
  rw [h]
  dsimp only
  rw [hret,if_neg hzero,hl,if_neg (by omega),hconn,hr,hhold.cstr_eq]

/-- Replies that fit the daemon's buffer do not overrun the one of `update_networks`. -/
theorem updateNetworks_connected (hs : Sized conn) : ∃ networks, updateNetworks w =
    .ok { w with ctrlConn := some (conn.exchange (takes 4096) (ascii "LIST_NETWORKS")).1,
                 networks := networks } := by
  by_cases hgot : ∃ d, (conn.exchange (takes 4096) (ascii "LIST_NETWORKS")).2.2 = .got d
  · obtain ⟨d,hd⟩ := hgot
    have hfit := (hs.exchange 4096 (ascii "LIST_NETWORKS")).2 d hd (by omega)
    exact ⟨_,updateNetworks_got h hfit hd⟩
  · exact ⟨_,updateNetworks_failed h fun d hd => hgot ⟨d,hd⟩⟩

end UpdateNetworks

end WpaCliWrapper
