import WpaCliWrapper.Oper.ConnectWifi
import WpaCliWrapper.Wrapper.Forwarding

/-! What one step of `connect_wifi` does on a connected socket: the words of its command, the
request it sends, and the exchange that follows. -/
namespace WpaCliWrapper
open CText Exchange

variable {D : Daemon}

/-- A sequence that ends well has a first part that does. -/
theorem bind_ok {α β : Type} {x : Except Fault α} {f : α → Except Fault β} {b : β}
    (h : x >>= f = .ok b) : ∃ a, x = .ok a ∧ f a = .ok b := by
  cases x with
  | error fault => cases h
  | ok a => exact ⟨a,rfl,h⟩

/-- The wrapper works on this connection. -/
structure On (w : Wrapper D) (conn : Conn D) : Prop where
  initialized : w.initialized = true
  connected : w.ctrlConn = some conn
  sized : Sized conn

/-- The reply starts with `OK`, in either case, where the step looks at it. -/
def saysOk (reply : Bytes) : Bool := hasPrefixCase (cstr (reply.take 255)) (ascii "OK")

theorem cmdBuffer_length (text : Bytes) : (cmdBuffer text).bytes.length < 256 := by
  have h := (List.takeWhile_prefix (l := clip 256 text) (· != 0)).length_le
  have hc := clip_length_lt text (show 0 < 256 by decide)
  change (cstr (clip 256 text)).length < 256
  unfold cstr
  omega

theorem cmdBuffer_bytes {text : Bytes} (h : 0 ∉ text) : (cmdBuffer text).bytes = text.take 255 :=
  cstr_eq_self fun hm => h (List.mem_of_mem_take hm)

section Exec
variable (cfg : BuildConfig) {w : Wrapper D} {conn : Conn D} (h : On w conn) {cmd : CString}
  (hl : cmd.bytes.length < 256)
include h hl

/-- A command that asks: one exchange, and the hidden one where the command has it. -/
theorem commExec_ask (ho : ¬ Overfills kMaxArgs cmd.bytes) {c : Command} {text : Bytes}
    (hc : commandOf cfg (lineWords cmd.bytes) = c) (hp : c.plan = .ask text) (hn : c.ifname = none) :
    ∃ w' ret, wpaCliCommExec cfg w cmd = .ok (w',ret) ∧
      On w' (c.finish (conn.exchange (takes 1) text).1) ∧
      (ret = 0 ↔ ∃ r, (conn.exchange (takes 1) text).2.2 = .got r ∧ saysOk r) := by
  have hlen : (List.replicate 256 (0 : UInt8)).length = 256 := List.length_replicate
  unfold wpaCliCommExec
  generalize List.replicate 256 (0 : UInt8) = buf at hlen
  rw [wpaCliExecute_eq cfg h.initialized (by omega) ho,hc]
  obtain ⟨r,networks,out,hr,hw,hret,hbuf⟩ := c.run_connected h.connected h.sized (show 0 < buf.length by omega)
  have hfirst : c.first buf.length conn = conn.exchange (takes 1) text := by
    simp only [Command.first,hp,Command.request,hn,hlen]
    rw [takes_eq (show 0 < 256-1 by decide)]
  have hs := c.finish_sized (h.sized.exchange 1 text).1
  rw [hp,hfirst] at hbuf
  rw [hp,hfirst] at hret
  rw [hfirst] at hw
  have hon : On r.wrapper (c.finish (conn.exchange (takes 1) text).1) := by
    rw [hw]
    exact ⟨h.initialized,rfl,hs⟩
  rw [hr]
  change ∃ w' ret, (if r.ret < 0 then Except.ok (r.wrapper,(-1 : ℤ))
    else if hasPrefixCase (cstr r.buf) (ascii "OK") then .ok (r.wrapper,0)
    else .ok (r.wrapper,-1)) = .ok (w',ret) ∧ _
  cases hx : (conn.exchange (takes 1) text).2.2 with
  | got d =>
    have hcstr := (hbuf.2 d hx).cstr_eq
    rw [hlen] at hcstr
    have hret : r.ret = 0 := by rw [hret,hx]; rfl
    rw [if_neg (by omega),hcstr]
    by_cases hok : saysOk d
    · refine ⟨_,_,if_pos hok,hon,by simpa using hok⟩
    · refine ⟨_,_,if_neg hok,hon,by simpa using hok⟩
  | unsent =>
    rw [if_pos (by rw [hret,hx]; exact (by decide : (-1 : ℤ) < 0))]
    exact ⟨_,_,rfl,hon,by simp⟩
  | failed =>
    rw [if_pos (by rw [hret,hx]; exact (by decide : (-1 : ℤ) < 0))]
    exact ⟨_,_,rfl,hon,by simp⟩
  | silence =>
    rw [if_pos (by rw [hret,hx]; exact (by decide : (-2 : ℤ) < 0))]
    exact ⟨_,_,rfl,hon,by simp⟩

theorem commExec_quiet (ho : ¬ Overfills kMaxArgs cmd.bytes) {c : Command} {messages : List Bytes}
    {code : ℤ} (hc : commandOf cfg (lineWords cmd.bytes) = c) (hp : c.plan = .quiet messages code)
    (hu : c.updates = false) (hneg : code < 0) :
    ∃ w', wpaCliCommExec cfg w cmd = .ok (w',-1) ∧ On w' conn := by
  have hlen : (List.replicate 256 (0 : UInt8)).length = 256 := List.length_replicate
  unfold wpaCliCommExec
  generalize List.replicate 256 (0 : UInt8) = buf at hlen
  rw [wpaCliExecute_eq cfg h.initialized (by omega) ho,hc]
  obtain ⟨r,networks,out,hr,hw,hret,-⟩ := c.run_connected h.connected h.sized (show 0 < buf.length by omega)
  have hfirst : c.finish (c.first buf.length conn).1 = conn := by
    simp only [Command.first,hp,Command.finish,hu]
    rfl
  rw [hfirst] at hw
  rw [hp] at hret
  have hret : r.ret = code := hret
  rw [hr]
  refine ⟨r.wrapper,if_pos (by omega),?_⟩
  rw [hw]
  exact ⟨h.initialized,rfl,h.sized⟩

omit hl in
theorem commExec_fault (ho : Overfills kMaxArgs cmd.bytes) :
    ∃ fault, wpaCliCommExec cfg w cmd = .error fault := by
  unfold wpaCliCommExec
  rw [wpaCliExecute_fault cfg h.initialized (.inr ho)]
  exact ⟨_,rfl⟩

end Exec

/-- A text that can stand in `network_id`. -/
structure IdText (id : Bytes) : Prop where
  word : IsWord isBlank id
  noNul : 0 ∉ id
  short : id.length < 16

/-- The part of a value that fits the command behind the id and the name. -/
def valuePart (id name value : Bytes) : Bytes := value.take (241-id.length-name.length)

/-- The words of a value that reach the daemon. -/
def valueWords (id name value : Bytes) : List Bytes := (words isBlank (valuePart id name value)).take 13

def setRequest (id name : Bytes) (value : List Bytes) : Bytes :=
  ascii "SET_NETWORK" ++ spaced 32 (id :: name :: value)

section Lines
variable {id name value : Bytes} (hi : IdText id) (hname : IsWord isBlank name ∧ 0 ∉ name ∧ name.length < 16)
  (hv : 0 ∉ value)
include hi hname hv

theorem setNetworkCmd_bytes : (setNetworkCmd id name value).bytes =
    ascii "set_network" ++ 32 :: (id ++ 32 :: (name ++ 32 :: valuePart id name value)) := by
  have hshort := hi.short
  have hnul : 0 ∉ ascii "set_network " ++ id ++ 32 :: name ++ 32 :: value := by
    simp only [List.mem_append,List.mem_cons,not_or]
    exact ⟨⟨⟨by decide,hi.noNul⟩,by decide,hname.2.1⟩,by decide,hv⟩
  have hpre : ascii "set_network " ++ id ++ 32 :: name ++ 32 :: value =
      (ascii "set_network" ++ 32 :: (id ++ 32 :: (name ++ [32]))) ++ value := by
    simp [ascii]
  have hlen : (ascii "set_network" ++ 32 :: (id ++ 32 :: (name ++ [32]))).length =
      14+id.length+name.length := by
    simp [ascii]
    omega
  rw [setNetworkCmd,cmdBuffer_bytes hnul,hpre,List.take_append,List.take_of_length_le (by omega),hlen,
    show 255-(14+id.length+name.length) = 241-id.length-name.length by omega]
  simp [valuePart]

theorem setNetworkCmd_words : words isBlank (setNetworkCmd id name value).bytes =
    ascii "set_network" :: id :: name :: words isBlank (valuePart id name value) := by
  have hset : IsWord isBlank (ascii "set_network") := by decide
  rw [setNetworkCmd_bytes hi hname hv,words_word_cons hset rfl,words_word_cons hi.word rfl,
    words_word_cons hname.1 rfl]

theorem setNetworkCmd_overfills :
    Overfills kMaxArgs (setNetworkCmd id name value).bytes ↔
      Overfills 13 (valuePart id name value) := by
  have hset : IsWord isBlank (ascii "set_network") := by decide
  have hstep : ∀ {w rest : Bytes} (room : ℕ), IsWord isBlank w →
      (Overfills (room+1) (w ++ 32 :: rest) ↔ Overfills room rest) := fun room hw =>
    overfills_succ (List.forall_mem_nil _) hw rfl room
  rw [setNetworkCmd_bytes hi hname hv,kMaxArgs,hstep 15 hset,hstep 14 hi.word,hstep 13 hname.1]

/-- The command asks for the variable to be set, unless its value has no word. -/
theorem setNetworkCmd_command (cfg : BuildConfig) :
    (valueWords id name value ≠ [] → commandOf cfg (lineWords (setNetworkCmd id name value).bytes) =
      ⟨none,.ask (setRequest id name (valueWords id name value)),false⟩) ∧
    (valueWords id name value = [] → ∃ messages code,
      commandOf cfg (lineWords (setNetworkCmd id name value).bytes) =
        ⟨none,.quiet messages code,false⟩ ∧ code < 0) := by
  have hline : lineWords (setNetworkCmd id name value).bytes =
      ascii "set_network" :: id :: name :: valueWords id name value := by
    rw [lineWords,setNetworkCmd_words hi hname hv]
    rfl
  have hstrip : stripIfname (ascii "set_network" :: id :: name :: valueWords id name value) =
      (none,ascii "set_network" :: id :: name :: valueWords id name value) := rfl
  have hcommand : commandOf cfg (lineWords (setNetworkCmd id name value).bytes) =
      ⟨none,HandlerWithResults.setNetwork.plan cfg (id :: name :: valueWords id name value),false⟩ := by
    simp only [commandOf,hline,hstrip,select_set_network cfg]
    rfl
  have hlen : (ascii "SET_NETWORK" ++ spaced 32 (id :: name :: valueWords id name value)).length < 4096 := by
    have h1 := length_spaced_sublist 32 (List.take_sublist 13 (words isBlank (valuePart id name value)))
    have h2 := length_spaced_words (p := isBlank) 32 (valuePart id name value)
    have h3 : (valuePart id name value).length ≤ 241 := by
      rw [valuePart,List.length_take]
      omega
    have hshort := hi.short
    have h11 : (ascii "SET_NETWORK").length = 11 := by decide
    simp only [spaced_cons,List.length_append,List.length_cons,h11]
    unfold valueWords
    omega
  rw [hcommand]
  rcases forward_plan (h := .setNetwork) rfl cfg hlen with ⟨hmin,hp⟩ | ⟨hmin,messages,code,hp,hcode⟩
  · rw [hp]
    refine ⟨fun _ => rfl,fun hnil => ?_⟩
    rw [hnil] at hmin
    exact absurd hmin (by simp)
  · rw [hp]
    refine ⟨fun hne => ?_,fun _ => ⟨messages,code,rfl,hcode.resolve_right (by simp)⟩⟩
    obtain ⟨v,vs,hvs⟩ := List.exists_cons_of_ne_nil hne
    rw [hvs,List.length_cons,List.length_cons,List.length_cons] at hmin
    omega

end Lines

/-- One of the commands that only name the network. -/
theorem networkCmd_command {id : Bytes} (hi : IdText id) {name request : Bytes}
    {h : HandlerWithResults} {row : WpaCliCmd} (cfg : BuildConfig)
    (hname : IsWord isBlank name ∧ 0 ∉ name ∧ name.length < 16)
    (hsel : selectCommand cfg name = .found row) (hrow : row.handlerWithResults = h)
    (hf : h.forward = some (request,1)) :
    (networkCmd name id).bytes = name ++ 32 :: id ∧
      ¬ Overfills kMaxArgs (networkCmd name id).bytes ∧
      commandOf cfg (lineWords (networkCmd name id).bytes) =
        ⟨none,.ask (request ++ 32 :: id),h.updates⟩ := by
  have hshort := hi.short
  have hbytes : (networkCmd name id).bytes = name ++ 32 :: id := by
    have hnul : 0 ∉ name ++ 32 :: id := by
      simp only [List.mem_append,List.mem_cons,not_or]
      exact ⟨hname.2.1,by decide,hi.noNul⟩
    rw [networkCmd,cmdBuffer_bytes hnul]
    apply List.take_of_length_le
    simp only [List.length_append,List.length_cons]
    omega
  have hwords : words isBlank (networkCmd name id).bytes = [name,id] := by
    rw [hbytes,words_word_cons hname.1 rfl,words_of_word hi.word]
  have hline : lineWords (networkCmd name id).bytes = [name,id] := by
    rw [lineWords,hwords]
    rfl
  have hstrip : stripIfname [name,id] = (none,[name,id]) := by
    exact if_neg fun hp => (selectCommand_chars hsel).2 (ifname_head hp).1
  have hlen : (request ++ spaced 32 [id]).length < 4096 := by
    have hr := (forward_name hf).2.1
    simp only [spaced_cons,spaced_nil,List.append_nil,List.length_append,List.length_cons]
    omega
  refine ⟨hbytes,fun ho => ?_,?_⟩
  · have h16 := ho.1
    rw [hwords] at h16
    exact absurd h16 (by simp [kMaxArgs])
  · rw [hline]
    simp only [commandOf,hstrip,hsel,hrow]
    rcases forward_plan hf cfg hlen with ⟨-,hp⟩ | ⟨hmin,-⟩
    · rw [hp]
      simp
    · simp at hmin

/-- `add_network`, its hidden exchange, and the text that ends up in `network_id`. -/
theorem addNetwork_ask (cfg : BuildConfig) {w : Wrapper D} {conn : Conn D} (h : On w conn) :
    ∃ w', On w' ((conn.exchange (takes 1) (ascii "ADD_NETWORK")).1.exchange (takes 1)
        (ascii "LIST_NETWORKS")).1 ∧
      addNetwork cfg w [] =
        match (conn.exchange (takes 1) (ascii "ADD_NETWORK")).2.2 with
        | .got r => if 16 ≤ (cstr (r.take 255)).length then .error .networkId
                    else .ok (w',cstr (r.take 255),0)
        | _ => .ok (w',[],-1) := by
  have hlen : (List.replicate 256 (0 : UInt8)).length = 256 := List.length_replicate
  have hlist : takes 4096 = takes 1 := takes_eq (by decide)
  have ho : ¬ Overfills kMaxArgs (ascii "add_network") := by decide
  unfold addNetwork
  generalize List.replicate 256 (0 : UInt8) = buf at hlen
  rw [wpaCliExecute_eq cfg h.initialized (by decide) ho,commandOf_addNetwork cfg]
  obtain ⟨r,networks,out,hr,hw,hret,hbuf⟩ := Command.run_connected
    ⟨none,.ask (ascii "ADD_NETWORK"),true⟩ h.connected h.sized (show 0 < buf.length by omega)
  have hfirst : Command.first ⟨none,.ask (ascii "ADD_NETWORK"),true⟩ buf.length conn =
      conn.exchange (takes 1) (ascii "ADD_NETWORK") := by
    simp only [Command.first,Command.request,hlen]
    rw [takes_eq (show 0 < 256-1 by decide)]
  rw [hfirst] at hw hret hbuf
  simp only [Command.finish,hlist,if_true] at hw
  have hs := (((h.sized.exchange 1 (ascii "ADD_NETWORK")).1).exchange 1 (ascii "LIST_NETWORKS")).1
  refine ⟨r.wrapper,?_,?_⟩
  · rw [hw]
    exact ⟨h.initialized,rfl,hs⟩
  · rw [hr]
    change (if r.ret < 0 then Except.ok (r.wrapper,([] : Bytes),(-1 : ℤ))
      else if 16 ≤ (cstr r.buf).length then .error Fault.networkId
      else .ok (r.wrapper,cstr r.buf,0)) = _
    cases hx : (conn.exchange (takes 1) (ascii "ADD_NETWORK")).2.2 with
    | got d =>
      have hcstr := (hbuf.2 d hx).cstr_eq
      rw [hlen] at hcstr
      have hret : r.ret = 0 := by rw [hret,hx]; rfl
      rw [if_neg (by omega),hcstr]
    | unsent => exact if_pos (by rw [hret,hx]; exact (by decide : (-1 : ℤ) < 0))
    | failed => exact if_pos (by rw [hret,hx]; exact (by decide : (-1 : ℤ) < 0))
    | silence => exact if_pos (by rw [hret,hx]; exact (by decide : (-2 : ℤ) < 0))

section Steps
variable (cfg : BuildConfig) {w : Wrapper D} {conn : Conn D} (h : On w conn) {id : Bytes}
  (hi : IdText id)
include h hi

/-- One `set_network` step: it writes past `argv`, sends nothing, or sends its request. -/
theorem set_step {name value : Bytes} (hname : IsWord isBlank name ∧ 0 ∉ name ∧ name.length < 16)
    (hv : 0 ∉ value) :
    (Overfills kMaxArgs (setNetworkCmd id name value).bytes →
      ∃ fault, wpaCliCommExec cfg w (setNetworkCmd id name value) = .error fault) ∧
    (¬ Overfills kMaxArgs (setNetworkCmd id name value).bytes → valueWords id name value = [] →
      ∃ w', wpaCliCommExec cfg w (setNetworkCmd id name value) = .ok (w',-1) ∧ On w' conn) ∧
    (¬ Overfills kMaxArgs (setNetworkCmd id name value).bytes → valueWords id name value ≠ [] →
      ∃ w' ret, wpaCliCommExec cfg w (setNetworkCmd id name value) = .ok (w',ret) ∧
        On w' (conn.exchange (takes 1) (setRequest id name (valueWords id name value))).1 ∧
        (ret = 0 ↔ ∃ r, (conn.exchange (takes 1)
          (setRequest id name (valueWords id name value))).2.2 = .got r ∧ saysOk r)) := by
  have hl : (setNetworkCmd id name value).bytes.length < 256 := cmdBuffer_length _
  obtain ⟨hask,hquiet⟩ := setNetworkCmd_command hi hname hv cfg
  refine ⟨commExec_fault cfg h,fun ho hnil => ?_,fun ho hne => ?_⟩
  · obtain ⟨messages,code,hc,hneg⟩ := hquiet hnil
    exact commExec_quiet cfg h hl ho hc rfl rfl hneg
  · exact commExec_ask cfg h hl ho (hask hne) rfl rfl

theorem enable_step : ∃ w' ret, enableNetwork cfg w id = .ok (w',ret) ∧
    On w' (conn.exchange (takes 1) (ascii "ENABLE_NETWORK" ++ 32 :: id)).1 ∧
    (ret = 0 ↔ ∃ r, (conn.exchange (takes 1) (ascii "ENABLE_NETWORK" ++ 32 :: id)).2.2 = .got r ∧
      saysOk r) := by
  obtain ⟨-,ho,hc⟩ := networkCmd_command hi cfg
    (show IsWord isBlank (ascii "enable_network") ∧ _ from ⟨by decide,by decide,by decide⟩)
    (select_enable_network cfg) rfl rfl
  exact commExec_ask cfg h (cmdBuffer_length _) ho hc rfl rfl

theorem disable_step : ∃ w' ret, disableNetwork cfg w id = .ok (w',ret) ∧
    On w' (conn.exchange (takes 1) (ascii "DISABLE_NETWORK" ++ 32 :: id)).1 := by
  obtain ⟨-,ho,hc⟩ := networkCmd_command hi cfg
    (show IsWord isBlank (ascii "disable_network") ∧ _ from ⟨by decide,by decide,by decide⟩)
    (select_disable_network cfg) rfl rfl
  obtain ⟨w',ret,hr,hon,-⟩ := commExec_ask cfg h (cmdBuffer_length _) ho hc rfl rfl
  exact ⟨w',ret,hr,hon⟩

theorem remove_step : ∃ w' ret, removeNetwork cfg w id = .ok (w',ret) ∧
    On w' ((conn.exchange (takes 1) (ascii "REMOVE_NETWORK" ++ 32 :: id)).1.exchange (takes 1)
      (ascii "LIST_NETWORKS")).1 := by
  obtain ⟨-,ho,hc⟩ := networkCmd_command hi cfg
    (show IsWord isBlank (ascii "remove_network") ∧ _ from ⟨by decide,by decide,by decide⟩)
    (select_remove_network cfg) rfl rfl
  obtain ⟨w',ret,hr,hon,-⟩ := commExec_ask cfg h (cmdBuffer_length _) ho hc rfl rfl
  refine ⟨w',ret,hr,?_⟩
  simp only [Command.finish] at hon
  rwa [takes_eq (show 0 < 4096 by decide)] at hon

end Steps

end WpaCliWrapper
