import WpaCliWrapper.Common.Receive
import WpaCliWrapper.Wrapper.Handlers

/-! The functions of the library that receive a reply and close it with a NUL, with every access
to the buffer and to the text in it checked. -/
namespace WpaCliWrapper
open CText Exchange

/-- The static variables that the receivers use, and what they print. -/
structure Statics where
  connected : Bool
  ifnamePrefix : Option Bytes
  bsses : List Bytes
  ifnames : List Bytes
  networks : List Bytes
  stdout : List Bytes

def Statics.print (s : Statics) (text : Bytes) : Statics := { s with stdout := s.stdout ++ [text] }

/-- With a prefix the request is built in the buffer that later takes the reply; `os_snprintf`
keeps to the size it is given. -/
def putPrefix (ifname : Option Bytes) (cmd buf : Bytes) : Except Overrun Bytes :=
  match ifname with
  | none => .ok buf
  | some name => store .buffer
      (overwrite buf (clip buf.length (ifnameText name cmd) ++ [0])) (buf.length-1) 0

/-- With a prefix the command that a failure prints is the buffer. -/
def shownCommand (ifname : Option Bytes) (cmd reply : Bytes) : Except Overrun Bytes :=
  if ifname.isSome then readString .buffer reply 0 else .ok cmd

/-- The request of a receiver that reports messages, and what it prints when it fails. -/
def Statics.request (s : Statics) (peer : Peer) (ifname : Option Bytes) (cmd buf : Bytes) :
    Except Overrun (Statics × Received) := do
  let buf ← putPrefix ifname cmd buf
  let r ← peer.wpaCtrlRequest buf (buf.length-1) true
  let s := { s with stdout := s.stdout ++ r.messages.map (· ++ [10]) }
  if r.ret < 0 then
    let shown ← shownCommand ifname cmd r.reply
    if r.ret = -2 then return (s.print (39 :: shown ++ ascii "' command timed out.\n"),r)
    else return (s.print (39 :: shown ++ ascii "' command failed.\n"),{ r with ret := -1 })
  else return (s,r)

/-- `buf[len] = '\0'`. -/
def Received.close (r : Received) : Except Overrun Bytes := store .buffer r.reply r.replyLen 0

/-- The reply in its closed buffer; nothing behind its NUL belongs to it. -/
def Received.text (r : Received) (buf : Bytes) : Bytes := buf.take (r.replyLen+1)

/-- `printf("%s", buf)`, and the newline that the interactive mode adds. -/
def Statics.printReply (s : Statics) (text : Bytes) (len : ℕ) : Except Overrun Statics := do
  let s := s.print (← readString .text text 0)
  if interactive ∧ 0 < len then
    if (← load .text text (len-1)) ≠ 10 then return s.print [10] else return s
  else return s

/-- `os_memcmp(buf, "FAIL", 4) == 0`. -/
def isFail (buf : Bytes) : Except Overrun Bool :=
  if 4 ≤ buf.length then .ok (buf.take 4 == ascii "FAIL") else .error .buffer

namespace Statics
variable (s : Statics) (peer : Peer)

def wpaCtrlCommand (cmd : Bytes) (print : Bool) (buf : Bytes) : Except Overrun (Statics × ℤ) := do
  if !s.connected then return (s.print notConnected,-1)
  let (s,r) ← s.request peer s.ifnamePrefix cmd buf
  if r.ret < 0 then return (s,r.ret)
  if print then
    let buf ← r.close
    return (← s.printReply (r.text buf) r.replyLen,0)
  return (s,0)

def wpaCtrlCommandWithResults (cmd : Bytes) (print : Bool) (buf : Bytes) :
    Except Overrun (Statics × ℤ × Bytes) := do
  if !s.connected then return (s.print notConnected,-1,buf)
  let (s,r) ← s.request peer s.ifnamePrefix cmd buf
  if r.ret < 0 then return (s,r.ret,r.reply)
  let buf ← r.close
  if print then return (← s.printReply (r.text buf) r.replyLen,0,buf)
  return (s,0,buf)

/-- The last component is what was copied to `addr`. -/
def wpaCtrlCommandSta (cmd : Bytes) (addrLen : ℕ) (buf : Bytes) :
    Except Overrun (Statics × ℤ × Option Bytes) := do
  if !s.connected then
    return (s.print (ascii "Not connected to hostapd - command dropped.\n"),-1,none)
  let (s,r) ← s.request peer s.ifnamePrefix cmd buf
  if r.ret < 0 then return (s,r.ret,none)
  let buf ← r.close
  if ← isFail buf then return (s,-1,none)
  let text := r.text buf
  let s := s.print (← readString .text text 0)
  let pos ← advance .text (fun c => c != 0 && c != 10) text 0
  let text ← store .text text pos 0
  return (s,0,some (clip addrLen (← readString .text text 0)))

/-- The option `discovered` looks at the rest of the reply, behind its first line. -/
def wpaCtrlCommandP2pPeer (cmd : Bytes) (addrLen : ℕ) (discovered : Bool) (buf : Bytes) :
    Except Overrun (Statics × ℤ × Option Bytes) := do
  if !s.connected then return (s,-1,none)
  let (s,r) ← s.request peer none cmd buf
  if r.ret < 0 then return (s,r.ret,none)
  let buf ← r.close
  if ← isFail buf then return (s,-1,none)
  let text := r.text buf
  let pos ← advance .text (fun c => c != 0 && c != 10) text 0
  let text ← store .text text pos 0
  let addr := clip addrLen (← readString .text text 0)
  if discovered then
    if (← strstrAt .text text (pos+1) (ascii "[PROBE_REQ_ONLY]")).isSome then
      return (s,0,some addr)
  return (s.print (addr ++ [10]),0,some addr)

end Statics

section Lists
variable {σ : Type}

/-- The loop over the lines of a reply: `seek` finds the start of the next entry, and `add` uses
the text from there to the end of the line. -/
def lineLoop (seek : Bytes → ℕ → Except Overrun (Option ℕ)) (add : σ → Bytes → σ) :
    ℕ → Bytes → ℕ → σ → Except Overrun σ
  | 0, _, _, _ => .error .text
  | rounds+1, text, pos, l => do
    match ← seek text pos with
    | none => return l
    | some pos =>
      match ← strchr .text text pos 10 with
      | none => return l
      | some e =>
        let text ← store .text text e 0
        lineLoop seek add rounds text (e+1) (add l (← readString .text text pos))

/-- The functions that fill a list from a reply; they pass the whole size of their buffer to
`wpa_ctrl_request`. -/
def updateList (connected : Bool) (peer : Peer) (buf : Bytes)
    (seek : Bytes → ℕ → Except Overrun (Option ℕ)) (add : σ → Bytes → σ) (l : σ) :
    Except Overrun σ := do
  if !connected then return l
  let r ← peer.wpaCtrlRequest buf buf.length false
  if r.ret < 0 then return l
  let buf ← r.close
  lineLoop seek add (r.text buf).length (r.text buf) 0 l

def seekLine (_ : Bytes) (pos : ℕ) : Except Overrun (Option ℕ) := .ok (some pos)

def seekBssid (text : Bytes) (pos : ℕ) : Except Overrun (Option ℕ) := do
  return (← strstrAt .text text pos (ascii "bssid=")).map (·+6)

def addIfnameLine (l : List Bytes) (line : Bytes) : List Bytes :=
  let txt := ascii "ifname=" ++ line
  if txt.length < 200 then cliTxtListAdd l txt else l

/-- The first line is the header. -/
def addNetworkLine (l : Bool × List Bytes) (line : Bytes) : Bool × List Bytes :=
  (false,if l.1 then l.2 else cliTxtListAddWord l.2 line 9)

end Lists

namespace Statics
variable (s : Statics) (peer : Peer) (buf : Bytes)

def updateBssidList : Except Overrun Statics := do
  return { s with bsses := ← updateList s.connected peer buf seekBssid cliTxtListAdd s.bsses }

def updateIfnames : Except Overrun Statics := do
  return { s with ifnames := ← updateList s.connected peer buf seekLine addIfnameLine [] }

def updateNetworks : Except Overrun Statics := do
  return { s with networks := (← updateList s.connected peer buf seekLine addNetworkLine (true,[])).2 }

end Statics

/-- What the buffer holds when the request of a receiver with room for `len` bytes is over. -/
def Holding (len size : ℕ) (outcome : Outcome Bytes) (r : Received) : Prop :=
  r.reply.length = size ∧
    match outcome with
    | .got d => r.ret = 0 ∧ r.replyLen = (d.take len).length ∧ d.take len <+: r.reply
    | _ => r.ret < 0

theorem received_holding {len : ℕ} {reply : Bytes} (h : len ≤ reply.length) (msgCb : Bool)
    (outcome : List Bytes × Outcome Bytes) :
    Holding len reply.length outcome.2 (received len msgCb reply [] outcome) := by
  have hfold := foldl_storeMessage_length msgCb outcome.1 h
  unfold received Holding
  cases outcome.2 with
  | got d =>
    have hd : (d.take len).length ≤ len := List.length_take_le len d
    refine ⟨?_,rfl,rfl,List.prefix_append _ _⟩
    exact (overwrite_length (by omega)).trans hfold
  | unsent => exact ⟨hfold,show (-1 : ℤ) < 0 by decide⟩
  | failed => exact ⟨hfold,show (-1 : ℤ) < 0 by decide⟩
  | silence => exact ⟨hfold,show (-2 : ℤ) < 0 by decide⟩

theorem getElem?_overwrite {reply data : Bytes} {i : ℕ} (h : data.length ≤ i) :
    (overwrite reply data)[i]? = reply[i]? := by
  rw [overwrite,List.getElem?_append_right h,List.getElem?_drop,Nat.add_sub_cancel' h]

theorem storeMessage_nul {len i : ℕ} (h : len ≤ i) (msgCb : Bool) (m : Bytes) {reply : Bytes}
    (hi : reply[i]? = some 0) : (storeMessage len msgCb reply m)[i]? = some 0 := by
  have hover : (overwrite reply (m.take len))[i]? = some 0 := by
    rw [getElem?_overwrite ((List.length_take_le len m).trans h),hi]
  unfold storeMessage
  cases msgCb with
  | false => exact hover
  | true =>
    change (terminate (overwrite reply (m.take len)) (messageEnd len (m.take len).length))[i]? = some 0
    rw [terminate,List.getElem?_set,hover]
    split
    · rename_i heq
      rw [if_pos (heq ▸ (List.getElem?_eq_some_iff.mp hover).1)]
    · rfl

/-- Nothing that is received with room for `len` bytes changes a NUL behind them. -/
theorem received_nul {len i : ℕ} (h : len ≤ i) (msgCb : Bool) {reply : Bytes}
    (hi : reply[i]? = some 0) (messages : List Bytes) (outcome : List Bytes × Outcome Bytes) :
    (received len msgCb reply messages outcome).reply[i]? = some 0 := by
  have hfold : (outcome.1.foldl (storeMessage len msgCb) reply)[i]? = some 0 := by
    induction outcome.1 generalizing reply with
    | nil => exact hi
    | cons m ms ih => exact ih (storeMessage_nul h msgCb m hi)
  unfold received
  cases outcome.2 with
  | got d =>
    change (overwrite _ (d.take len))[i]? = some 0
    rw [getElem?_overwrite ((List.length_take_le len d).trans h),hfold]
  | unsent => exact hfold
  | failed => exact hfold
  | silence => exact hfold

/-- The text of a reply that leaves room for the NUL. -/
theorem Received.close_fits {r : Received} {data : Bytes} (h : data <+: r.reply)
    (hlen : r.replyLen = data.length) (hroom : data.length < r.reply.length) :
    r.close = .ok (terminate r.reply r.replyLen) ∧
      r.text (terminate r.reply r.replyLen) = data ++ [0] := by
  obtain ⟨rest,hrest⟩ := h
  obtain ⟨x,rest,rfl⟩ : ∃ x more, rest = x :: more := by
    cases rest with
    | nil => simp [← hrest] at hroom
    | cons x more => exact ⟨x,more,rfl⟩
  refine ⟨if_pos (hlen ▸ hroom),?_⟩
  rw [text,terminate,hlen,← hrest]
  simp [List.take_append]

theorem Received.close_full {r : Received} (h : r.reply.length ≤ r.replyLen) :
    r.close = .error .buffer := store_full h 0

theorem putPrefix_fits {buf : Bytes} (hn : 0 < buf.length) (ifname : Option Bytes) (cmd : Bytes) :
    ∃ buf', putPrefix ifname cmd buf = .ok buf' ∧ buf'.length = buf.length ∧
      (ifname.isSome → buf'[buf.length-1]? = some 0) := by
  cases ifname with
  | none => exact ⟨buf,rfl,rfl,by simp⟩
  | some name =>
    have hclip := clip_length_lt (ifnameText name cmd) hn
    have hlen : (overwrite buf (clip buf.length (ifnameText name cmd) ++ [0])).length = buf.length :=
      overwrite_length (by rw [List.length_append,List.length_singleton]; omega)
    refine ⟨_,if_pos (by omega),by rw [List.length_set,hlen],fun _ => ?_⟩
    exact List.getElem?_set_self (by omega)

/-- The string of a buffer that ends in a NUL can be read. -/
theorem readString_buffer {buf : Bytes} (h : buf[buf.length-1]? = some 0) :
    readString Overrun.buffer buf 0 = .ok (cstr buf) := by
  obtain ⟨hlt,hget⟩ := List.getElem?_eq_some_iff.mp h
  have hbuf : buf = buf.take (buf.length-1) ++ [0] := by
    rw [← hget,← List.take_succ_eq_append_getElem hlt,List.take_of_length_le (by omega)]
  rw [hbuf,readString_text (Nat.zero_le _),List.drop_zero,cstr_append_nul]

/-- What a failure prints of the command. -/
theorem shownCommand_received {buf : Bytes} {ifname : Option Bytes}
    (hnul : ifname.isSome → buf[buf.length-1]? = some 0) (cmd : Bytes)
    (outcome : List Bytes × Outcome Bytes) :
    let r := received (buf.length-1) true buf [] outcome
    shownCommand ifname cmd r.reply = .ok (if ifname.isSome then cstr r.reply else cmd) := by
  dsimp only
  unfold shownCommand
  cases hpre : ifname.isSome with
  | false => rfl
  | true =>
    obtain ⟨hsize,-⟩ := received_holding (Nat.sub_le buf.length 1) true outcome
    rw [if_pos rfl,if_pos rfl]
    apply readString_buffer
    rw [hsize]
    exact received_nul le_rfl true (hnul hpre) _ _

/-- The request of a receiver that keeps one byte for the NUL stays inside its buffer. -/
theorem Statics.request_holding {buf : Bytes} (hn : 0 < buf.length) (s : Statics) (peer : Peer)
    (ifname : Option Bytes) (cmd : Bytes) :
    ∃ s' r, s.request peer ifname cmd buf = .ok (s',r) ∧
      Holding (buf.length-1) buf.length (peer.outcome (buf.length-1)).2 r := by
  obtain ⟨buf',hput,hlen,hnul⟩ := putPrefix_fits hn ifname cmd
  have hfit : buf'.length-1 ≤ buf'.length := Nat.sub_le _ _
  have hhold := received_holding hfit true (peer.outcome (buf'.length-1))
  rw [request,hput,ok_bind,Peer.wpaCtrlRequest_eq hfit,ok_bind]
  rw [hlen] at hhold ⊢
  have hshown := shownCommand_received (fun h => hlen ▸ hnul h) cmd (peer.outcome (buf.length-1))
  rw [hlen] at hshown
  generalize received (buf.length-1) true buf' [] (peer.outcome (buf.length-1)) = r at hhold hshown ⊢
  dsimp only
  split
  · rename_i hneg
    rw [hshown,ok_bind]
    split
    · exact ⟨_,r,rfl,hhold⟩
    · refine ⟨_,_,rfl,hhold.1,?_⟩
      have hout := hhold.2
      cases ho : (peer.outcome (buf.length-1)).2 with
      | got d =>
        rw [ho] at hout
        have hzero : r.ret = 0 := hout.1
        omega
      | unsent => exact show (-1 : ℤ) < 0 by decide
      | failed => exact show (-1 : ℤ) < 0 by decide
      | silence => exact show (-1 : ℤ) < 0 by decide
  · exact ⟨_,r,rfl,hhold⟩

theorem Holding.got {len size : ℕ} {outcome : Outcome Bytes} {r : Received}
    (h : Holding len size outcome r) (hret : ¬ r.ret < 0) : ∃ d, outcome = .got d := by
  cases outcome with
  | got d => exact ⟨d,rfl⟩
  | unsent => exact absurd h.2 hret
  | failed => exact absurd h.2 hret
  | silence => exact absurd h.2 hret

/-- A request either fails or leaves a reply that can be closed inside the buffer. -/
theorem Statics.request_cases {buf : Bytes} (hn : 0 < buf.length) (s : Statics) (peer : Peer)
    (ifname : Option Bytes) (cmd : Bytes) :
    ∃ s' r, s.request peer ifname cmd buf = .ok (s',r) ∧
      ((r.ret < 0 ∧ ∀ d, (peer.outcome (buf.length-1)).2 ≠ .got d) ∨
        ∃ d closed, ¬ r.ret < 0 ∧ (peer.outcome (buf.length-1)).2 = .got d ∧
          r.close = .ok closed ∧ closed.length = buf.length ∧
          r.text closed = d.take (buf.length-1) ++ [0]) := by
  obtain ⟨s',r,hr,hsize,hout⟩ := s.request_holding hn peer ifname cmd
  refine ⟨s',r,hr,?_⟩
  cases ho : (peer.outcome (buf.length-1)).2 with
  | got d =>
    rw [ho] at hout
    obtain ⟨hret,hlen,hpre⟩ := hout
    have hle := List.length_take_le (buf.length-1) d
    obtain ⟨hclose,htext⟩ := Received.close_fits hpre hlen (by omega)
    exact .inr ⟨d,_,by omega,rfl,hclose,by rw [terminate_length,hsize],htext⟩
  | unsent => exact .inl ⟨by rwa [ho] at hout,by simp⟩
  | failed => exact .inl ⟨by rwa [ho] at hout,by simp⟩
  | silence => exact .inl ⟨by rwa [ho] at hout,by simp⟩

theorem printReply_text (s : Statics) (body : Bytes) (len : ℕ) :
    s.printReply (body ++ [0]) len = .ok (s.print (cstr body)) := by
  rw [Statics.printReply,readString_text (Nat.zero_le _),ok_bind,List.drop_zero]
  rfl

/-- `memcmp` does not see what stands behind the NUL. -/
theorem isFail_closed {r : Received} {buf d : Bytes} (h4 : 4 ≤ buf.length)
    (h : r.text buf = d.take 4095 ++ [0]) : isFail buf = .ok (d.take 4 == ascii "FAIL") := by
  obtain ⟨rest,hbuf⟩ : ∃ rest, buf = d.take 4095 ++ 0 :: rest := by
    refine ⟨buf.drop (r.replyLen+1),?_⟩
    rw [List.append_cons,← h,Received.text,List.take_append_drop]
  have htake : (d.take 4095).take 4 = d.take 4 := by rw [List.take_take]; rfl
  refine (if_pos h4).trans (congrArg _ ?_)
  rcases Nat.lt_or_ge (d.take 4095).length 4 with hshort | hlong
  · have hmem : (0 : UInt8) ∈ buf.take 4 := by
      rw [hbuf,List.take_append,List.mem_append]
      right
      obtain ⟨n,hn⟩ : ∃ n, 4-(d.take 4095).length = n+1 := ⟨3-(d.take 4095).length,by omega⟩
      rw [hn,List.take_succ_cons]
      exact List.mem_cons_self
    have hleft : buf.take 4 ≠ ascii "FAIL" := fun heq => absurd (heq ▸ hmem) (by decide)
    have hright : d.take 4 ≠ ascii "FAIL" := by
      intro heq
      have hlen := congrArg List.length (htake.trans heq)
      rw [List.length_take,show (ascii "FAIL").length = 4 from rfl] at hlen
      omega
    rw [beq_eq_false_iff_ne.mpr hleft,beq_eq_false_iff_ne.mpr hright]
  · rw [hbuf,List.take_append_of_le_length hlong,htake]

section Commands
variable (s : Statics) (peer : Peer) (cmd : Bytes) {buf : Bytes} (hn : 0 < buf.length)
include hn

theorem wpaCtrlCommand_inside (print : Bool) :
    ∃ r, s.wpaCtrlCommand peer cmd print buf = .ok r := by
  obtain ⟨s',r,hr,hcases⟩ := s.request_cases hn peer s.ifnamePrefix cmd
  unfold Statics.wpaCtrlCommand
  cases s.connected with
  | false => exact ⟨_,rfl⟩
  | true =>
    rw [hr]
    rcases hcases with ⟨hret,-⟩ | ⟨d,closed,hret,-,hclose,-,htext⟩
    · simp only [ok_bind,if_pos hret]
      exact ⟨_,rfl⟩
    · simp only [ok_bind,if_neg hret,hclose,htext,printReply_text]
      cases print <;> exact ⟨_,rfl⟩

theorem wpaCtrlCommandWithResults_inside (print : Bool) :
    ∃ r, s.wpaCtrlCommandWithResults peer cmd print buf = .ok r := by
  obtain ⟨s',r,hr,hcases⟩ := s.request_cases hn peer s.ifnamePrefix cmd
  unfold Statics.wpaCtrlCommandWithResults
  cases s.connected with
  | false => exact ⟨_,rfl⟩
  | true =>
    rw [hr]
    rcases hcases with ⟨hret,-⟩ | ⟨d,closed,hret,-,hclose,-,htext⟩
    · simp only [ok_bind,if_pos hret]
      exact ⟨_,rfl⟩
    · simp only [ok_bind,if_neg hret,hclose,htext,printReply_text]
      cases print <;> exact ⟨_,rfl⟩

end Commands

/-- Where the first line of a text ends. -/
def lineEnd (body : Bytes) : ℕ := (body.takeWhile fun c => c != 0 && c != 10).length

theorem lineEnd_le (body : Bytes) : lineEnd body ≤ body.length :=
  (List.takeWhile_prefix _).length_le

theorem advance_lineEnd (body : Bytes) :
    advance Overrun.text (fun c => c != 0 && c != 10) (body ++ [0]) 0 = .ok (lineEnd body) := by
  rw [advance_text rfl (Nat.zero_le _),List.drop_zero,Nat.zero_add]
  rfl

/-- The line ends in front of the closing NUL if it has an end of its own. -/
theorem lineEnd_eq_iff (body : Bytes) :
    lineEnd body = body.length ↔ ¬ ∃ c ∈ body, c = 0 ∨ c = 10 := by
  have hself : lineEnd body = body.length ↔
      body.takeWhile (fun c => c != 0 && c != 10) = body :=
    ⟨(List.takeWhile_prefix _).eq_of_length,fun h => congrArg List.length h⟩
  rw [hself,List.takeWhile_eq_self_iff]
  simp

/-- What follows the first line can be searched if the line has an end of its own. -/
theorem strstrAt_rest_iff (body needle : Bytes) :
    (∃ r, strstrAt Overrun.text (body.set (lineEnd body) 0 ++ [0]) (lineEnd body+1) needle = .ok r) ↔
      ∃ c ∈ body, c = 0 ∨ c = 10 := by
  have hle := lineEnd_le body
  have hset : (body.set (lineEnd body) 0).length = body.length := List.length_set
  by_cases heq : lineEnd body = body.length
  · have hpast : lineEnd body+1 = (body.set (lineEnd body) 0).length+1 := by rw [hset,heq]
    rw [hpast,strstrAt_past]
    refine ⟨?_,fun h => absurd h ((lineEnd_eq_iff body).mp heq)⟩
    rintro ⟨r,hr⟩
    cases hr
  · rw [strstrAt_text (by omega)]
    refine ⟨fun _ => ?_,fun _ => ⟨_,rfl⟩⟩
    by_contra hno
    exact heq ((lineEnd_eq_iff body).mpr hno)

section Peers
variable (s : Statics) (peer : Peer) (cmd : Bytes) (addrLen : ℕ) {buf : Bytes}
  (hn : buf.length = 4096)
include hn

theorem wpaCtrlCommandSta_inside : ∃ r, s.wpaCtrlCommandSta peer cmd addrLen buf = .ok r := by
  have hpos : 0 < buf.length := by omega
  obtain ⟨s',r,hr,hcases⟩ := s.request_cases hpos peer s.ifnamePrefix cmd
  unfold Statics.wpaCtrlCommandSta
  cases s.connected with
  | false => exact ⟨_,rfl⟩
  | true =>
    rw [hr]
    rcases hcases with ⟨hret,-⟩ | ⟨d,closed,hret,-,hclose,hlen,htext⟩
    · simp only [ok_bind,if_pos hret]
      exact ⟨_,rfl⟩
    · rw [hn] at hlen htext
      simp only [ok_bind,if_neg hret,hclose,isFail_closed (by omega) htext,htext,
        readString_text (Nat.zero_le _),advance_lineEnd,store_text (lineEnd_le _)]
      cases d.take 4 == ascii "FAIL" <;> exact ⟨_,rfl⟩

/-- With the option `discovered` the first line has to end before the reply does. -/
theorem wpaCtrlCommandP2pPeer_inside_iff (discovered : Bool) :
    (∃ r, s.wpaCtrlCommandP2pPeer peer cmd addrLen discovered buf = .ok r) ↔
      (s.connected → ∀ d, peer.Delivers d → discovered → d.take 4 ≠ ascii "FAIL" →
        ∃ c ∈ d.take 4095, c = 0 ∨ c = 10) := by
  have hpos : 0 < buf.length := by omega
  obtain ⟨s',r,hr,hcases⟩ := s.request_cases hpos peer none cmd
  rw [hn] at hcases
  unfold Statics.wpaCtrlCommandP2pPeer
  cases s.connected with
  | false => simp; exact ⟨_,_,_,rfl⟩
  | true =>
    rw [hr]
    rcases hcases with ⟨hret,hno⟩ | ⟨d,closed,hret,hd,hclose,hlen,htext⟩
    · simp only [ok_bind,if_pos hret]
      refine ⟨fun _ _ d hd => absurd ((Peer.outcome_got_iff (show 0 < 4096-1 by decide)).mpr hd) (hno d),
        fun _ => ⟨_,rfl⟩⟩
    · have hdel : peer.Delivers d := (Peer.outcome_got_iff (show 0 < 4096-1 by decide)).mp hd
      simp only [ok_bind,if_neg hret,hclose,isFail_closed (by omega) htext,htext,
        readString_text (Nat.zero_le _),advance_lineEnd,store_text (lineEnd_le _)]
      cases hfail : d.take 4 == ascii "FAIL" with
      | true =>
        refine ⟨fun _ _ d' hd' _ hne => absurd ?_ hne,fun _ => ⟨_,rfl⟩⟩
        rw [hdel.eq hd']
        exact beq_iff_eq.mp hfail
      | false =>
        cases discovered with
        | false => exact ⟨fun _ _ _ _ h => absurd h (by decide),fun _ => ⟨_,rfl⟩⟩
        | true =>
          have hiff := strstrAt_rest_iff (d.take 4095) (ascii "[PROBE_REQ_ONLY]")
          change (∃ r, (strstrAt Overrun.text ((d.take 4095).set (lineEnd (d.take 4095)) 0 ++ [0])
            (lineEnd (d.take 4095)+1) (ascii "[PROBE_REQ_ONLY]") >>= _) = .ok r) ↔ _
          constructor
          · rintro ⟨r,hrun⟩ _ d' hd' _ _
            rw [hdel.eq hd',← hiff]
            cases hs : strstrAt Overrun.text ((d.take 4095).set (lineEnd (d.take 4095)) 0 ++ [0])
                (lineEnd (d.take 4095)+1) (ascii "[PROBE_REQ_ONLY]") with
            | error fault => rw [hs] at hrun; cases hrun
            | ok found => exact ⟨found,rfl⟩
          · intro h
            obtain ⟨found,hfound⟩ := hiff.mpr (h trivial d hdel rfl (beq_eq_false_iff_ne.mp hfail))
            rw [hfound]
            cases found <;> exact ⟨_,rfl⟩

end Peers

section Lines
variable {σ : Type} {seek : Bytes → ℕ → Except Overrun (Option ℕ)} {add : σ → Bytes → σ}

/-- A search that stays inside every text closed by a NUL, and does not go back. -/
def SeeksInside (seek : Bytes → ℕ → Except Overrun (Option ℕ)) : Prop :=
  ∀ (body : Bytes) (pos : ℕ), pos ≤ body.length →
    ∃ r, seek (body ++ [0]) pos = .ok r ∧ ∀ p ∈ r, pos ≤ p ∧ p ≤ body.length

theorem seeksInside_seekLine : SeeksInside seekLine := by
  intro body pos h
  refine ⟨some pos,rfl,fun p hp => ?_⟩
  cases hp
  exact ⟨le_rfl,h⟩

theorem seeksInside_seekBssid : SeeksInside seekBssid := by
  intro body pos h
  refine ⟨_,by rw [seekBssid,strstrAt_text h]; rfl,fun p hp => ?_⟩
  simp only [Option.map_map,Option.mem_def,Option.map_eq_some_iff,Function.comp_apply] at hp
  obtain ⟨i,hi,rfl⟩ := hp
  have hocc := (strstr_eq_some_iff.mp hi).1.length_le
  have hlen : (cstr (body.drop pos)).length ≤ (body.drop pos).length :=
    (List.takeWhile_prefix _).length_le
  have hsix : (ascii "bssid=").length = 6 := rfl
  rw [List.length_drop] at hlen
  omega

/-- The loop over the lines stays inside the text and ends. -/
theorem lineLoop_inside (hseek : SeeksInside seek) {rounds : ℕ} {body : Bytes} {pos : ℕ}
    (hpos : pos ≤ body.length) (hrounds : body.length < pos+rounds) (l : σ) :
    ∃ l', lineLoop seek add rounds (body ++ [0]) pos l = .ok l' := by
  induction rounds generalizing body pos l with
  | zero => omega
  | succ rounds ih =>
    obtain ⟨r,hr,hin⟩ := hseek body pos hpos
    rw [lineLoop,hr,ok_bind]
    cases r with
    | none => exact ⟨l,rfl⟩
    | some p =>
      obtain ⟨hge,hle⟩ := hin p rfl
      dsimp only
      rcases strchr_cases Overrun.text (c := 10) (by decide) hle with
        ⟨hnone,-⟩ | ⟨line,more,-,-,hlt,hsome⟩
      · rw [hnone]
        exact ⟨l,rfl⟩
      · rw [hsome,ok_bind]
        dsimp only
        rw [store_text (by omega),ok_bind,readString_text (by rw [List.length_set]; omega),ok_bind]
        exact ih (by rw [List.length_set]; omega) (by rw [List.length_set]; omega) _

/-- A reply as long as the buffer is closed behind it. -/
theorem updateList_inside_iff (hseek : SeeksInside seek) (connected : Bool) (peer : Peer) {buf : Bytes}
    (hn : 0 < buf.length) (l : σ) :
    (∃ l', updateList connected peer buf seek add l = .ok l') ↔
      (connected → ∀ d, peer.Delivers d → d.length < buf.length) := by
  unfold updateList
  cases connected with
  | false => exact ⟨fun _ h => absurd h (by decide),fun _ => ⟨l,rfl⟩⟩
  | true =>
    obtain ⟨hsize,hout⟩ := received_holding (le_refl buf.length) false (peer.outcome buf.length)
    rw [Peer.wpaCtrlRequest_eq le_rfl]
    generalize received buf.length false buf [] (peer.outcome buf.length) = r at hsize hout
    simp only [Bool.not_true,Bool.false_eq_true,if_false,ok_bind,true_implies]
    by_cases hret : r.ret < 0
    · rw [if_pos hret]
      refine ⟨fun _ d hd => ?_,fun _ => ⟨l,rfl⟩⟩
      rw [(Peer.outcome_got_iff hn).mpr hd] at hout
      have hzero : r.ret = 0 := hout.1
      omega
    · rw [if_neg hret]
      obtain ⟨d,hd⟩ := Holding.got ⟨hsize,hout⟩ hret
      rw [hd] at hout
      obtain ⟨-,hlen,hpre⟩ := hout
      have hdel := (Peer.outcome_got_iff hn).mp hd
      rw [List.length_take] at hlen
      rcases Nat.lt_or_ge d.length buf.length with hlt | hge
      · have htake : d.take buf.length = d := List.take_of_length_le hlt.le
        rw [htake] at hpre
        obtain ⟨hclose,htext⟩ := Received.close_fits hpre (by omega) (by omega)
        rw [hclose,ok_bind,htext]
        refine ⟨fun _ d' hd' => ?_,fun _ => ?_⟩
        · rw [hdel.eq hd']
          exact hlt
        · apply lineLoop_inside hseek (Nat.zero_le _)
          rw [List.length_append,List.length_singleton]
          omega
      · rw [Received.close_full (by omega),error_bind]
        refine ⟨?_,fun h => absurd (h d hdel) (by omega)⟩
        rintro ⟨l',hl'⟩
        cases hl'

theorem updateList_map_iff (hseek : SeeksInside seek) (connected : Bool) (peer : Peer) {buf : Bytes}
    (hn : buf.length = 4096) (l : σ) (f : σ → Statics) :
    (∃ r, (do return f (← updateList connected peer buf seek add l)) =
        (.ok r : Except Overrun Statics)) ↔
      (connected → ∀ d, peer.Delivers d → d.length < 4096) := by
  rw [exists_map_iff,updateList_inside_iff hseek connected peer (by omega) l,hn]

end Lines

/-- The functions that receive a reply and close it with a NUL. The buffer of the second belongs
to its caller and has `n+1` bytes. -/
inductive Receiver
  | ctrlCommand (cmd : CString) (print : Bool)
  | ctrlCommandWithResults (cmd : CString) (print : Bool) (n : ℕ)
  | ctrlCommandSta (cmd : CString) (addrLen : ℕ)
  | ctrlCommandP2pPeer (cmd : CString) (addrLen : ℕ) (discovered : Bool)
  | bssidList
  | ifnames
  | networks

namespace Receiver

def bufLen : Receiver → ℕ
  | .ctrlCommandWithResults _ _ n => n+1
  | _ => 4096

/-- The run of a receiver ends without an access outside its buffer or behind the NUL. -/
def Ends (s : Statics) (peer : Peer) (buf : Bytes) : Receiver → Prop
  | .ctrlCommand cmd print => ∃ r, s.wpaCtrlCommand peer cmd.bytes print buf = .ok r
  | .ctrlCommandWithResults cmd print _ =>
    ∃ r, s.wpaCtrlCommandWithResults peer cmd.bytes print buf = .ok r
  | .ctrlCommandSta cmd addrLen => ∃ r, s.wpaCtrlCommandSta peer cmd.bytes addrLen buf = .ok r
  | .ctrlCommandP2pPeer cmd addrLen discovered =>
    ∃ r, s.wpaCtrlCommandP2pPeer peer cmd.bytes addrLen discovered buf = .ok r
  | .bssidList => ∃ r, s.updateBssidList peer buf = .ok r
  | .ifnames => ∃ r, s.updateIfnames peer buf = .ok r
  | .networks => ∃ r, s.updateNetworks peer buf = .ok r

/-- The buffer may hold anything before. -/
def StaysInside (f : Receiver) (s : Statics) (peer : Peer) (buf : Vector UInt8 f.bufLen) : Prop :=
  f.Ends s peer buf.toList

/-- The replies for which a receiver has room. -/
def Accepts (d : Bytes) : Receiver → Prop
  | .ctrlCommandP2pPeer _ _ discovered =>
    discovered → d.take 4 ≠ ascii "FAIL" → ∃ c ∈ d.take 4095, c = 0 ∨ c = 10
  | .bssidList => d.length < 4096
  | .ifnames => d.length < 4096
  | .networks => d.length < 4096
  | _ => True

/-- A receiver stays inside its buffer and its text unless it meets a reply it has no room for. -/
theorem staysInside_iff (f : Receiver) (s : Statics) (peer : Peer) (buf : Vector UInt8 f.bufLen) :
    f.StaysInside s peer buf ↔ (s.connected → ∀ d, peer.Delivers d → f.Accepts d) := by
  have hlen : buf.toList.length = f.bufLen := buf.length_toList
  unfold StaysInside
  generalize buf.toList = cells at hlen
  cases f with
  | ctrlCommand cmd print =>
    have hn : 0 < cells.length := hlen ▸ Nat.succ_pos _
    exact iff_of_true (wpaCtrlCommand_inside s peer cmd.bytes hn print) fun _ _ _ => trivial
  | ctrlCommandWithResults cmd print n =>
    have hn : 0 < cells.length := hlen ▸ Nat.succ_pos _
    exact iff_of_true (wpaCtrlCommandWithResults_inside s peer cmd.bytes hn print)
      fun _ _ _ => trivial
  | ctrlCommandSta cmd addrLen =>
    exact iff_of_true (wpaCtrlCommandSta_inside s peer cmd.bytes addrLen hlen) fun _ _ _ => trivial
  | ctrlCommandP2pPeer cmd addrLen discovered =>
    exact wpaCtrlCommandP2pPeer_inside_iff s peer cmd.bytes addrLen hlen discovered
  | bssidList => exact updateList_map_iff seeksInside_seekBssid s.connected peer hlen _ _
  | ifnames => exact updateList_map_iff seeksInside_seekLine s.connected peer hlen _ _
  | networks => exact updateList_map_iff seeksInside_seekLine s.connected peer hlen _ _

/-- A peer whose only datagram fills a buffer of 4096 bytes. -/
def fullPeer : Peer := ⟨true,[.datagram (List.replicate 4096 65)]⟩

theorem fullPeer_leaves_buffer :
    ¬ ∀ (f : Receiver) (s : Statics) (peer : Peer) (buf : Vector UInt8 f.bufLen),
      f.StaysInside s peer buf := by
  intro h
  have hrun := h .networks ⟨true,none,[],[],[],[]⟩ fullPeer (.replicate 4096 0)
  have hdel : fullPeer.Delivers (List.replicate 4096 65) := ⟨rfl,by simp,[],[],rfl,by simp⟩
  have hlt := (updateList_map_iff seeksInside_seekLine true fullPeer Vector.length_toList _ _).mp
    hrun rfl _ hdel
  rw [List.length_replicate] at hlt
  exact absurd hlt (by decide)

end Receiver

section Connected
variable {D : Daemon}

/-- The static variables of a wrapper, as far as its requests use them. -/
def Wrapper.statics (w : Wrapper D) : Statics :=
  ⟨w.ctrlConn.isSome,w.ifnamePrefix,[],[],w.networks,w.stdout⟩

/-- What a NUL in place of the first newline leaves of the string at `pos`. -/
theorem cstr_cut {body line more : Bytes} {pos : ℕ}
    (h : cstr (body.drop pos) = line ++ 10 :: more) :
    cstr ((body.set (pos+line.length) 0).drop pos) = line ∧
      cstr ((body.set (pos+line.length) 0).drop (pos+line.length+1)) = more := by
  have hnul := cstr_noNul (body.drop pos)
  rw [h] at hnul
  have hline : ∀ c ∈ line, (c != 0) = true := by
    intro c hc
    have hc0 : c ≠ 0 := fun heq => hnul (by simp [← heq,hc])
    simpa using hc0
  obtain ⟨tail,htail⟩ := List.takeWhile_prefix (· != 0) (l := body.drop pos)
  change cstr (body.drop pos) ++ tail = body.drop pos at htail
  rw [h,List.append_assoc,List.cons_append] at htail
  constructor
  · rw [List.drop_set,if_neg (by omega),Nat.add_sub_cancel_left,← htail,List.set_append_right _ _ le_rfl,
      Nat.sub_self,List.set_cons_zero,cstr_append_nul]
    exact List.takeWhile_eq_self_iff.mpr hline
  · rw [List.drop_set,if_pos (by omega)]
    have hrest : body.drop (pos+line.length+1) = more ++ tail := by
      rw [Nat.add_assoc,← List.drop_drop,← htail,← List.drop_drop,List.drop_left,List.drop_one,
        List.tail_cons]
    rw [← htail,cstr,List.takeWhile_append_of_pos hline] at h
    have hmore := List.append_cancel_left h
    rw [List.takeWhile_cons_of_pos (by decide)] at hmore
    rw [hrest]
    exact (List.cons.inj hmore).2

/-- The loop adds line after line, as far as the string goes. -/
theorem lineLoop_lines {σ : Type} {add : σ → Bytes → σ} {rounds : ℕ} {body : Bytes} {pos : ℕ}
    (hpos : pos ≤ body.length) (hrounds : body.length < pos+rounds) (l : σ) :
    lineLoop seekLine add rounds (body ++ [0]) pos l =
      .ok ((((cstr (body.drop pos)).splitOn 10).dropLast).foldl add l) := by
  induction rounds generalizing body pos l with
  | zero => omega
  | succ rounds ih =>
    rw [lineLoop,seekLine,ok_bind]
    dsimp only
    rcases strchr_cases Overrun.text (c := 10) (by decide) hpos with
      ⟨hnone,hno⟩ | ⟨line,more,hstr,hno,hlt,hsome⟩
    · rw [hnone,List.splitOn_eq_singleton hno]
      rfl
    · obtain ⟨hcut,hrest⟩ := cstr_cut hstr
      rw [hsome,ok_bind]
      dsimp only
      rw [store_text (by omega),ok_bind,readString_text (by rw [List.length_set]; omega),ok_bind,hcut,
        ih (by rw [List.length_set]; omega) (by rw [List.length_set]; omega),hrest,hstr,
        List.splitOn_append_cons_self_of_not_mem hno,
        List.dropLast_cons_of_ne_nil (List.splitOn_ne_nil 10 more),List.foldl_cons]

theorem foldl_addNetworkLine (lines : List Bytes) :
    (lines.foldl addNetworkLine (true,[])).2 = (lines.drop 1).foldl (cliTxtListAddWord · · 9) [] := by
  have hrest : ∀ (lines : List Bytes) (l : List Bytes),
      (lines.foldl addNetworkLine (false,l)).2 = lines.foldl (cliTxtListAddWord · · 9) l := by
    intro lines
    induction lines with
    | nil => exact fun _ => rfl
    | cons line lines ih => exact fun l => ih _
  cases lines with
  | nil => rfl
  | cons line lines => exact hrest lines []

/-- On a connection the checked `update_networks` is the one that the commands run. -/
theorem updateNetworks_peerOf {w : Wrapper D} {conn : Conn D} (h : w.ctrlConn = some conn) :
    match updateNetworks w with
    | .ok w' => w.statics.updateNetworks (peerOf conn (ascii "LIST_NETWORKS")) (List.replicate 4096 0) =
        .ok { w.statics with networks := w'.networks }
    | .error _ => w.statics.updateNetworks (peerOf conn (ascii "LIST_NETWORKS"))
        (List.replicate 4096 0) = .error .buffer := by
  have hbuf : (List.replicate 4096 (0 : UInt8)).length = 4096 := List.length_replicate
  obtain ⟨-,hsize,hret,hgot⟩ := wpaCtrlRequest_spec conn (ascii "LIST_NETWORKS") hbuf.ge false
  have hreq := wpaCtrlRequest_peerOf conn (ascii "LIST_NETWORKS") hbuf.ge false
  have hconn : w.statics.connected = true := by simp [Wrapper.statics,h]
  unfold updateNetworks Statics.updateNetworks updateList
  rw [hconn,hbuf,hreq,h]
  dsimp only
  generalize wpaCtrlRequest conn (ascii "LIST_NETWORKS") (List.replicate 4096 0) 4096 false = r at *
  simp only [Bool.not_true,Bool.false_eq_true,if_false,ok_bind]
  by_cases hneg : r.ret < 0
  · simp only [if_pos hneg,hconn]
    rfl
  · obtain ⟨d,hd⟩ := code_nonneg (by rw [← hret]; omega)
    obtain ⟨hlen,before,hbefore,hreply⟩ := hgot d hd
    rw [hbuf] at hsize hbefore
    simp only [if_neg hneg]
    by_cases hfull : 4096 ≤ r.replyLen
    · rw [if_pos hfull]
      dsimp only
      rw [Received.close_full (by exact hsize.le.trans hfull)]
      rfl
    · have hpre : d.take 4096 <+: r.reply := ⟨_,hreply.symm⟩
      obtain ⟨hclose,htext⟩ := Received.close_fits (r := ⟨r.ret,r.reply,r.replyLen,r.messages⟩) hpre hlen
        (by change _ < r.reply.length; omega)
      have hhold : Holds (terminate r.reply r.replyLen) (d.take 4096) := by
        rw [hlen,hreply]
        exact holds_terminate_overwrite (by omega)
      rw [if_neg hfull]
      dsimp only
      rw [hclose,ok_bind,htext,lineLoop_lines (Nat.zero_le _) (by simp),List.drop_zero,
        hhold.cstr_eq,networkLines,← foldl_addNetworkLine,hconn]
      rfl

theorem putPrefix_statics (w : Wrapper D) (cmd : Bytes) {buf : Bytes} (hn : 0 < buf.length) :
    putPrefix w.ifnamePrefix cmd buf = .ok (w.putRequest (w.request buf.length cmd) buf) := by
  unfold putPrefix Wrapper.putRequest Wrapper.request
  cases w.ifnamePrefix with
  | none => rfl
  | some name =>
    have hclip := clip_length_lt (ifnameText name cmd) hn
    have hlen : (overwrite buf (clip buf.length (ifnameText name cmd) ++ [0])).length = buf.length :=
      overwrite_length (by rw [List.length_append,List.length_singleton]; omega)
    exact if_pos (by omega)

/-- On a connection the checked transport is the one that the handlers use. -/
theorem wpaCtrlCommandWithResults_peerOf {w : Wrapper D} {conn : Conn D} (h : w.ctrlConn = some conn)
    (cmd : Bytes) (print : Bool) {buf : Bytes} (hn : 0 < buf.length) :
    let r := ctrlCommand w cmd print buf
    w.statics.wpaCtrlCommandWithResults (peerOf conn (w.request buf.length cmd)) cmd print buf =
      .ok (r.wrapper.statics,r.ret,r.buf) := by
  obtain ⟨before,hput,hlen,hnul⟩ := putPrefix_fits hn w.ifnamePrefix cmd
  have hbefore := hput
  rw [putPrefix_statics w cmd hn] at hbefore
  have hbefore := Except.ok.inj hbefore
  have hfit := Nat.sub_le before.length 1
  have hreq := wpaCtrlRequest_peerOf conn (w.request buf.length cmd) hfit true
  have heq := (Peer.wpaCtrlRequest_eq hfit (peerOf conn (w.request buf.length cmd))).symm.trans hreq
  have hshown := shownCommand_received (fun h => by rw [hlen]; exact hnul h) cmd
    ((peerOf conn (w.request buf.length cmd)).outcome (before.length-1))
  obtain ⟨-,hsize,hret,hgot⟩ := wpaCtrlRequest_spec conn (w.request buf.length cmd) hfit true
  rw [Except.ok.inj heq] at hshown
  have hconn : w.statics.connected = true := by simp [Wrapper.statics,h]
  unfold ctrlCommand Statics.wpaCtrlCommandWithResults Statics.request
  rw [hlen] at hreq hsize hret hgot hshown
  rw [h,hconn,show w.statics.ifnamePrefix = w.ifnamePrefix from rfl,hput]
  dsimp only at hshown ⊢
  rw [hbefore]
  simp only [Bool.not_true,Bool.false_eq_true,if_false,ok_bind,hlen,hreq]
  generalize wpaCtrlRequest conn (w.request buf.length cmd) before (buf.length-1) true = r at *
  by_cases hneg : r.ret < 0
  · simp only [if_pos hneg,hshown,ok_bind]
    by_cases htime : r.ret = -2
    · simp only [if_pos htime,pure_bind,if_pos hneg]
      rw [htime]
      rfl
    · simp only [if_neg htime,pure_bind]
      rfl
  · obtain ⟨d,hd⟩ := code_nonneg (by rw [← hret]; omega)
    obtain ⟨hdlen,_,hover,hreply⟩ := hgot d hd
    have hzero : ¬ r.ret = -2 := by omega
    have hle := List.length_take_le (buf.length-1) d
    have hpre : d.take (buf.length-1) <+: r.reply := ⟨_,hreply.symm⟩
    obtain ⟨hclose,htext⟩ := Received.close_fits (r := ⟨r.ret,r.reply,r.replyLen,r.messages⟩) hpre hdlen
      (by change _ < r.reply.length; omega)
    have hhold : Holds (terminate r.reply r.replyLen) (d.take (buf.length-1)) := by
      rw [hdlen,hreply]
      exact holds_terminate_overwrite (by omega)
    simp only [if_neg hneg,if_neg hzero,pure_bind,hclose,ok_bind,htext,printReply_text,hhold.cstr_eq]
    cases print <;> rfl

end Connected

end WpaCliWrapper
