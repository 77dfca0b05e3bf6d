import WpaCliWrapper.Oper.Opening

/-! Which networks one call of `connect_wifi` changes. -/
namespace WpaCliWrapper
open CText Exchange

variable {F : SsidFields}

/-- Whatever happens after the first request, and whatever `%s` reads in place of the missing
argument: the call ends, all its requests are about the network that the daemon added for it, and
the networks that were there before stay as they are, however the daemon goes on serving. -/
def KeepsOthers (m : Machine) (cfg : BuildConfig) (w : Wrapper (anySupplicant F))
    (conn : Conn (anySupplicant F)) (config : WifiConfig)
    (d : Delivery (anySupplicant F).server) : Prop :=
  ∀ env arg, ∃ w' ret conn',
    connectWifi { m with missingArg := arg } cfg (w.withEnv (d :: env)) config = .ok (w',ret) ∧
      w'.ctrlConn = some conn' ∧
      (∀ q ∈ conn'.sent.drop conn.sent.length, ∀ t, target q = some t → ∃ i, t = .id i ∧
        (ascii "ADD_NETWORK",idReply i) ∈ conn'.done.drop conn.done.length) ∧
      ∀ cs, conn.server <+: (conn'.drain cs).server

section Frame
variable {m : Machine} {cfg : BuildConfig} {w : Wrapper (anySupplicant F)}
  {conn : Conn (anySupplicant F)} (h : On w conn) (hidle : conn.Idle (takes 1))
  (hid : nextId conn.server < 2^31) {config : WifiConfig}
  {d : Delivery (anySupplicant F).server}
include h hidle hid

theorem KeepsOthers.reply (hk : KeepsOthers m cfg w conn config d) (c : AnyCircumstance)
    (hsent : d.sent) (hserved : Link.served d.acts = some (c,true)) :
    c.refusal = none ∧ ConfigFits m (idReply (nextId conn.server)) config := by
  have hc : c.refusal = none := by
    by_contra hne
    obtain ⟨env,hrun⟩ := connect_refused m cfg h hidle hid config hsent
      hserved (Option.isSome_iff_ne_none.mpr hne)
    obtain ⟨w',ret,conn',hr,hconn,htargets,-⟩ := hk env m.missingArg
    rcases hrun with ⟨fault,hf⟩ | ⟨w₂,w₃,conn₃,first,-,hr₃,hconn₃,-,-,hdone,hwaiting⟩
    · rw [hf] at hr
      cases hr
    · rw [hr₃] at hr
      cases hr
      rw [hconn₃] at hconn
      cases hconn
      have hmem : ascii "DISABLE_NETWORK" ++ 32 :: failReply ∈ conn'.sent.drop conn.sent.length := by
        rw [hidle.sent_length,Link.sent,hdone,hwaiting]
        simp
      obtain ⟨i,hi,hadded⟩ := htargets _ hmem (.id 0) (by decide)
      cases hi
      rw [hdone,List.drop_left,List.mem_singleton] at hadded
      exact absurd (congrArg Prod.snd hadded) (by decide)
  refine ⟨hc,?_⟩
  by_contra hfit
  have hreply : addReply c conn.server = idReply (nextId conn.server) := by
    rw [addReply_eq c hid,hc]
    rfl
  rw [← hreply] at hfit
  obtain ⟨env,fault,hf⟩ := connect_unfit m cfg h hidle hid config hsent hserved hfit
  obtain ⟨w',ret,conn',hr,-⟩ := hk env none
  rw [hf] at hr
  cases hr

end Frame

section Home

/-- One network is configured, with the id 0. -/
def homeConn : Conn (anySupplicant noFields) := freshConn [⟨0,some (ascii "home"),0,()⟩]

def cafeConfig : WifiConfig := ⟨ascii "cafe" ++ List.replicate 124 0,0,2,rfl⟩

def secretMachine : Machine := ⟨fun _ => some ⟨ascii "secret",by decide⟩,none⟩

theorem homeConn_on : On (.connected homeConn) homeConn := ⟨rfl,rfl,freshConn_sized _⟩

end Home

end WpaCliWrapper
