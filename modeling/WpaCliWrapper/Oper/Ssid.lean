import WpaCliWrapper.Oper.ConnectFrame

/-! The way of an SSID from `WifiConfig` into the daemon's network. -/
namespace WpaCliWrapper
open CText Exchange

variable {F : SsidFields}

/-- The daemon that refuses a request with `FAIL` if it does. -/
abbrev failSupplicant (F : SsidFields) : Daemon := supplicant F (· = failReply) fun _ => True

/-- What reaches the daemon of an SSID: its first words, joined by single blanks. -/
def ssidValue (ssid : CString) : Bytes := (spaced 32 ((words isBlank ssid.bytes).take 13)).tail

/-- However the request is served: `set_ssid` ends; if the daemon has answered it with `OK`, then
the network has this very SSID, and if it has not, then `set_ssid` fails. -/
def SsidFaithful (cfg : BuildConfig) (w : Wrapper (failSupplicant F))
    (conn : Conn (failSupplicant F)) (i : ℤ) (ssid : CString) : Prop :=
  ∀ env, ∃ w' ret conn', setSsid cfg (w.withEnv env) (idReply i) ssid = .ok (w',ret) ∧
    w'.ctrlConn = some conn' ∧
    ((∃ q, (q,okReply) ∈ conn'.done.drop conn.done.length) →
      ∃ n, wpaConfigGetNetwork conn'.server i = some n ∧ n.ssid = some ssid.bytes) ∧
    ((¬ ∃ q, (q,okReply) ∈ conn'.done.drop conn.done.length) → ret ≠ 0)

/-- Blanks are joined away, never added. -/
theorem ssidValue_length (ssid : CString) : (ssidValue ssid).length ≤ ssid.bytes.length := by
  have h1 := length_spaced_sublist 32 (List.take_sublist 13 (words isBlank ssid.bytes))
  have h2 := length_spaced_words (p := isBlank) 32 ssid.bytes
  rw [ssidValue,List.length_tail]
  omega

section Setting
variable {answers reports : Bytes → Prop} {nets : Networks F} {n : WpaSsid F} {id name : Bytes}
  {ws : List Bytes}

/-- The request as the daemon takes it apart. -/
theorem setRequest_eq (hws : ws ≠ []) : setRequest id name ws =
    ascii "SET_NETWORK " ++ (id ++ 32 :: (name ++ 32 :: (spaced 32 ws).tail)) := by
  obtain ⟨v,vs,rfl⟩ := List.exists_cons_of_ne_nil hws
  simp [setRequest,ascii]

/-- The daemon looks up the network and parses the value. -/
theorem process_setting (hid : 32 ∉ id) (hname : 32 ∉ name) (hws : ws ≠ [])
    (c : Circumstance answers reports) (hget : wpaConfigGetNetwork nets (atoi id) = some n) :
    ctrlIfaceProcess c nets (setRequest id name ws) =
      c.refusal.elim (answerTo nets ((updateNetwork n name (spaced 32 ws).tail).map
        fun n' => putNetwork n' nets)) fun text => (nets,text.1) := by
  rw [setRequest_eq hws,process_set,setNetwork_eq hid hname _ hget]

end Setting

section Value
variable {ssid : CString} (hne : words isBlank ssid.bytes ≠ [])
include hne

theorem ssidValue_ne_nil : ssidValue ssid ≠ [] := by
  obtain ⟨v,ws,hv⟩ := List.exists_cons_of_ne_nil hne
  have hword : IsWord isBlank v := isWord_of_mem_words (l := ssid.bytes) (by simp [hv])
  rw [ssidValue,hv]
  simp [hword.1]

/-- The daemon looks up the network and parses the value. -/
theorem process_ssid {i : ℤ} (hi : -2^31 ≤ i ∧ i < 2^31) {answers reports : Bytes → Prop}
    (c : Circumstance answers reports) {nets : Networks F} {n : WpaSsid F}
    (hget : wpaConfigGetNetwork nets i = some n) :
    ctrlIfaceProcess c nets (setRequest (idReply i) (ascii "ssid") ((words isBlank ssid.bytes).take 13)) =
      c.refusal.elim (answerTo nets ((updateNetwork n (ascii "ssid") (ssidValue ssid)).map
        fun n' => putNetwork n' nets)) fun text => (nets,text.1) := by
  have hblank : 32 ∉ idReply i := fun hm => absurd ((idReply_idText hi).word.2 32 hm) (by decide)
  have hatoi : atoi (idReply i) = i := atoi_decimal_append hi (by rintro c ⟨⟩; rfl)
  exact process_setting hblank (by decide) (by simpa using hne) c (hatoi.symm ▸ hget)

/-- A value that the daemon accepts is stored in the network and answered with `OK`. -/
theorem process_ssid_accepted {i : ℤ} (hi : -2^31 ≤ i ∧ i < 2^31) {answers reports : Bytes → Prop}
    {c : Circumstance answers reports} (hc : c.refusal = none) {nets : Networks F} {n : WpaSsid F}
    (hget : wpaConfigGetNetwork nets i = some n) {tmp : Option Bytes}
    (htmp : wpaConfigParseStr (ssidValue ssid) = some tmp) :
    ∃ n' : WpaSsid F, n'.ssid = tmp ∧
      ctrlIfaceProcess c nets
        (setRequest (idReply i) (ascii "ssid") ((words isBlank ssid.bytes).take 13)) =
          (putNetwork n' nets,okReply) ∧
      wpaConfigGetNetwork (putNetwork n' nets) i = some n' := by
  obtain ⟨n',hn',hput⟩ : ∃ n' : WpaSsid F, n'.ssid = tmp ∧
      updateNetwork n (ascii "ssid") (ssidValue ssid) = some n' := by
    rw [updateNetwork,if_pos rfl,htmp]
    by_cases hsame : tmp = n.ssid
    · exact ⟨n,hsame.symm,by simp [hsame]⟩
    · exact ⟨{ n with ssid := tmp, settings := F.updatePsk tmp n.settings },rfl,by simp [hsame]⟩
  have hid : n'.id = i := (updateNetwork_id hput).trans (getNetwork_mem hget).2
  have hmem : n'.id ∈ nets.ids := by
    rw [hid,← (getNetwork_mem hget).2]
    exact List.mem_map_of_mem (getNetwork_mem hget).1
  refine ⟨n',hn',?_,hid ▸ getNetwork_putNetwork hmem⟩
  rw [process_ssid hne hi c hget,hput,hc]
  rfl

end Value

section Faithful
variable {cfg : BuildConfig} {w : Wrapper (failSupplicant F)} {conn : Conn (failSupplicant F)}
  (h : On w conn) (hidle : conn.Idle (takes 1)) {i : ℤ} (hi : -2^31 ≤ i ∧ i < 2^31)
  {n : WpaSsid F} (hget : wpaConfigGetNetwork conn.server i = some n) {config : WifiConfig}
  {ssid : CString} (hs : config.ssidText = some ssid)
include h hidle hi hget hs

theorem ssidFaithful_of_rejected
    (ho : ¬ Overfills kMaxArgs (setNetworkCmd (idReply i) (ascii "ssid") ssid.bytes).bytes)
    (hr : words isBlank ssid.bytes = [] ∨ wpaConfigParseStr (ssidValue ssid) = none) :
    SsidFaithful cfg w conn i ssid := by
  intro env
  have hid := idReply_idText hi
  have hwords := valueWords_ssid hid hs
  obtain ⟨-,hquiet,hask⟩ := set_step cfg (h.withEnv env) hid ssid_name ssid.noNul
  rw [hwords] at hquiet hask
  by_cases hne : words isBlank ssid.bytes = []
  · obtain ⟨w',hrun,hon⟩ := hquiet ho (by rw [hne]; rfl)
    refine ⟨w',-1,_,hrun,hon.connected,fun hok => ?_,fun _ => by decide⟩
    obtain ⟨q,hq⟩ := hok
    simp at hq
  · obtain ⟨w',ret,hrun,hon,hret⟩ := hask ho (by simpa using hne)
    refine ⟨w',ret,_,hrun,hon.connected,?_⟩
    have hparse := hr.resolve_left hne
    have hfail : ∀ c : Circumstance (· = failReply) fun _ => True, (ctrlIfaceProcess c conn.server
        (setRequest (idReply i) (ascii "ssid") ((words isBlank ssid.bytes).take 13))).2 = failReply := by
      intro c
      rw [process_ssid hne hi c hget,updateNetwork,if_pos rfl,hparse]
      cases hc : c.refusal with
      | none => rfl
      | some text => exact text.2.2
    rcases (idle_withEnv hidle env).exchange_cases (skips_takes Nat.one_pos)
      (setRequest (idReply i) (ascii "ssid") ((words isBlank ssid.bytes).take 13)) with
      ⟨-,hdone,hout⟩ | ⟨c,-,hdone,hout⟩
    · rw [hdone]
      refine ⟨fun ⟨q,hq⟩ => by simp at hq,fun _ h0 => ?_⟩
      obtain ⟨r,hr,-⟩ := hret.mp h0
      exact hout r hr
    · rw [hdone]
      refine ⟨fun ⟨q,hq⟩ => ?_,fun _ h0 => ?_⟩
      · rw [List.drop_left,List.mem_singleton] at hq
        exact absurd ((congrArg Prod.snd hq).trans (hfail c)) (by decide : okReply ≠ failReply)
      · obtain ⟨r,hr,hok⟩ := hret.mp h0
        rw [(hout r hr).trans (hfail c)] at hok
        exact absurd hok (by decide)

theorem SsidFaithful.rejected (hf : SsidFaithful cfg w conn i ssid) :
    ¬ Overfills kMaxArgs (setNetworkCmd (idReply i) (ascii "ssid") ssid.bytes).bytes ∧
      (words isBlank ssid.bytes = [] ∨ wpaConfigParseStr (ssidValue ssid) = none) := by
  have hid := idReply_idText hi
  have ho : ¬ Overfills kMaxArgs (setNetworkCmd (idReply i) (ascii "ssid") ssid.bytes).bytes := by
    intro ho
    obtain ⟨fault,hfault⟩ := commExec_fault cfg (h.withEnv []) ho
    obtain ⟨w',ret,conn',hrun,-⟩ := hf []
    rw [setSsid,hfault] at hrun
    cases hrun
  refine ⟨ho,?_⟩
  by_contra hr
  obtain ⟨hne,hparse⟩ := not_or.mp hr
  obtain ⟨tmp,htmp⟩ := Option.ne_none_iff_exists'.mp hparse
  let c : Circumstance (· = failReply) fun _ => True := ⟨none,⟨[],nil_choice⟩⟩
  obtain ⟨n',hn',hserve,hfound⟩ := process_ssid_accepted hne hi (c := c) rfl hget htmp
  have htext : valueWords (idReply i) (ascii "ssid") ssid.bytes ≠ [] :=
    (valueWords_ssid_ne_nil hid hs).mpr hne
  obtain ⟨-,-,hask⟩ := set_step cfg (h.withEnv [Link.atOnce c]) hid ssid_name ssid.noNul
  obtain ⟨w',ret,hrun,hon,-⟩ := hask ho htext
  rw [valueWords_ssid hid hs] at hon
  obtain ⟨w'',ret',conn',hrun',hconn,hstored,-⟩ := hf [Link.atOnce c]
  rw [setSsid,hrun] at hrun'
  cases hrun'
  rw [hon.connected] at hconn
  cases hconn
  obtain ⟨-,-,hserver,hdone,-⟩ := (idle_withEnv hidle [Link.atOnce c]).exchange_atOnce
    (skips_takes Nat.one_pos) rfl
    (setRequest (idReply i) (ascii "ssid") ((words isBlank ssid.bytes).take 13))
  have hserver := hserver.trans (congrArg Prod.fst hserve)
  have hdone := hdone.trans (congrArg (fun r : _ × Bytes => _ ++ [(_,r.2)]) hserve)
  obtain ⟨n₂,hget₂,hssid⟩ := hstored ⟨_,by rw [hdone,List.drop_left]; exact List.mem_singleton_self _⟩
  rw [hserver,hfound] at hget₂
  cases hget₂
  rw [hn'] at hssid
  have hlt := parseStr_length (ssidValue_ne_nil hne) (hssid ▸ htmp)
  have hle := ssidValue_length ssid
  omega

end Faithful

/-- No value that the daemon accepts stores the SSID it was written from: the SSID is handled
faithfully exactly if setting it stays inside `argv` and fails. -/
theorem ssidFaithful_iff (cfg : BuildConfig) {w : Wrapper (failSupplicant F)}
    {conn : Conn (failSupplicant F)} (h : On w conn) (hidle : conn.Idle (takes 1)) {i : ℤ}
    (hi : -2^31 ≤ i ∧ i < 2^31) {n : WpaSsid F} (hget : wpaConfigGetNetwork conn.server i = some n)
    {config : WifiConfig} {ssid : CString} (hs : config.ssidText = some ssid) :
    SsidFaithful cfg w conn i ssid ↔
      ¬ Overfills kMaxArgs (setNetworkCmd (idReply i) (ascii "ssid") ssid.bytes).bytes ∧
        (words isBlank ssid.bytes = [] ∨ wpaConfigParseStr (ssidValue ssid) = none) :=
  ⟨fun hf => hf.rejected h hidle hi hget hs,fun ⟨ho,hr⟩ => ssidFaithful_of_rejected h hidle hi hget hs ho hr⟩

section Cafe

/-- A network was just added, with the id 0. -/
def newConn : Conn (failSupplicant noFields) := freshConn [⟨0,none,1,()⟩]

theorem newConn_on : On (.connected newConn) newConn := ⟨rfl,rfl,freshConn_sized _⟩

/-- `cafe` is read as two hexadecimal bytes. -/
theorem ssidFaithful_cafe : ¬ SsidFaithful (fun _ => false) (.connected newConn) newConn 0
    ⟨ascii "cafe",by decide⟩ := by
  intro hf
  have hr := hf.rejected newConn_on (freshConn_idle _) (by decide) rfl
    (show cafeConfig.ssidText = some _ from rfl)
  rcases hr.2 with h | h <;> exact absurd h (by decide)

/-- `my wifi` is no hexadecimal text, so that setting it fails. -/
theorem ssidFaithful_wifi : SsidFaithful (fun _ => false) (.connected newConn) newConn 0
    ⟨ascii "my wifi",by decide⟩ :=
  (ssidFaithful_iff (fun _ => false) newConn_on (freshConn_idle _) (by decide) rfl
    (show WifiConfig.ssidText ⟨ascii "my wifi" ++ List.replicate 121 0,0,2,rfl⟩ = some _ from rfl)).mpr
      ⟨by decide,.inr (by decide)⟩

end Cafe

end WpaCliWrapper
