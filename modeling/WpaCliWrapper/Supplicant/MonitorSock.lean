import WpaCliWrapper.CText.Cells
import WpaCliWrapper.Exchange.Keyed
import WpaCliWrapper.Supplicant.Monitors

/-! One socket of the control interface and its monitors: what sending a message, queueing it and the
requests of monitors do to them. -/

namespace WpaCliWrapper
open CText

namespace CtrlSock

section Lists
variable {d r : List WpaCtrlDst} {dst : WpaCtrlDst} {q : WpaCtrlDst → Bool}

theorem updateDst_append (hd : ∀ x ∈ d, q x = false) (hdst : q dst) (f : WpaCtrlDst → WpaCtrlDst) :
    updateDst (d ++ dst :: r) q f = d ++ f dst :: r := by
  induction d with
  | nil => exact if_pos hdst
  | cons x d ih =>
    rw [List.cons_append,updateDst,if_neg (by rw [hd x List.mem_cons_self]; exact Bool.false_ne_true),
      ih fun y hy => hd y (List.mem_cons_of_mem x hy)]
    rfl

theorem updateDst_map {β : Type} (f : WpaCtrlDst → WpaCtrlDst) (g : WpaCtrlDst → β)
    (hf : ∀ x, g (f x) = g x) (l : List WpaCtrlDst) : (updateDst l q f).map g = l.map g := by
  induction l with
  | nil => rfl
  | cons x l ih =>
    rw [updateDst]
    split
    · rw [List.map_cons,List.map_cons,hf]
    · rw [List.map_cons,List.map_cons,ih]

theorem mem_updateDst {f : WpaCtrlDst → WpaCtrlDst} {l : List WpaCtrlDst} {x : WpaCtrlDst}
    (h : x ∈ updateDst l q f) : x ∈ l ∨ ∃ y ∈ l, x = f y := by
  induction l with
  | nil => exact absurd h List.not_mem_nil
  | cons y l ih =>
    rw [updateDst] at h
    split at h
    · rcases List.mem_cons.mp h with rfl | h
      · exact .inr ⟨y,List.mem_cons_self,rfl⟩
      · exact .inl (List.mem_cons_of_mem y h)
    · rcases List.mem_cons.mp h with rfl | h
      · exact .inl List.mem_cons_self
      · exact (ih h).imp (List.mem_cons_of_mem y) fun ⟨z,hz,heq⟩ => ⟨z,List.mem_cons_of_mem y hz,heq⟩

/-- The entry at an address is behind those at other addresses. -/
theorem other_ptrs (h : ((d ++ dst :: r).map WpaCtrlDst.ptr).Nodup) :
    ∀ x ∈ d, (decide (x.ptr = dst.ptr)) = false := fun x hx => by
  rw [List.map_append,List.map_cons,List.nodup_append] at h
  exact decide_eq_false (h.2.2 x.ptr (List.mem_map_of_mem hx) dst.ptr List.mem_cons_self)

end Lists

section Sending

/-- What the loop does to a monitor. When the socket is closed on the way, the others get nothing. -/
inductive Visited (level : ℤ) (buf : Bytes) (closed : Bool) (dst : WpaCtrlDst) : WpaCtrlDst → Prop
  | below (h : level < dst.debugLevel) : Visited level buf closed dst dst
  | tried (h : ¬ level < dst.debugLevel) (ok : Bool) : Visited level buf closed dst (noted buf ok dst)
  | missed (h : closed = true) : Visited level buf closed dst dst

variable {level : ℤ} {buf : Bytes} {closed : Bool}

theorem Visited.ptr_eq {dst dst' : WpaCtrlDst} (h : Visited level buf closed dst dst') :
    dst'.ptr = dst.ptr := by
  cases h <;> rfl

theorem detach_append {p : CtrlSock} {d r : List WpaCtrlDst} {dst : WpaCtrlDst} {addr : Bytes}
    (h : p.ctrlDst = d ++ r) (hdst : dst ∈ d) (haddr : dst.addr = addr) : ∃ d', d'.Sublist d ∧
    (p.detach addr).1 = { p with ctrlDst := d' ++ r } := by
  refine ⟨d.eraseP (·.addr = addr),List.eraseP_sublist,?_⟩
  have hany : p.ctrlDst.any (·.addr = addr) := by
    rw [h,List.any_append,Bool.or_eq_true,List.any_eq_true]
    exact .inl ⟨dst,hdst,decide_eq_true haddr⟩
  have herase : (d ++ r).eraseP (·.addr = addr) = d.eraseP (·.addr = addr) ++ r := by
    refine List.eraseP_append_left ?_ r hdst
    exact decide_eq_true haddr
  rw [detach,if_pos hany,h,herase]

theorem visited_before {d d' : List WpaCtrlDst} {dst x : WpaCtrlDst}
    (h : d'.Sublist (d ++ [x])) (hx : Visited level buf closed dst x) : ∃ d₁ l₁ r₁,
    d' = d₁ ++ r₁ ∧ d₁.Sublist d ∧ l₁.Sublist [dst] ∧
      List.Forall₂ (Visited level buf closed) l₁ r₁ := by
  obtain ⟨d₁,r₁,rfl,hd,hr⟩ := List.sublist_append_iff.mp h
  rcases List.sublist_singleton.mp hr with rfl | rfl
  · exact ⟨d₁,[],[],rfl,hd,List.nil_sublist _,.nil⟩
  · exact ⟨d₁,[dst],[x],rfl,hd,.refl _,.cons hx .nil⟩

/-- The loop finds every monitor where it looks for it, although monitors are detached on the way. -/
theorem sendLoop_ok (results : ℕ → SendResult) (level : ℤ) (buf : Bytes) {p : CtrlSock}
    {d r : List WpaCtrlDst} (h : p.ctrlDst = d ++ r) (hnodup : (p.ctrlDst.map WpaCtrlDst.ptr).Nodup) :
    ∃ closed d' l r', sendLoop results level buf (r.map WpaCtrlDst.ptr) p =
        .ok { p with sock := p.sock && !closed, ctrlDst := d' ++ r' } ∧
      d'.Sublist d ∧ l.Sublist r ∧ List.Forall₂ (Visited level buf closed) l r' := by
  induction r generalizing p d with
  | nil =>
    refine ⟨false,d,[],[],?_,.refl _,.refl _,.nil⟩
    rw [List.map_nil,sendLoop,← h,Bool.not_false,Bool.and_true]
  | cons dst r ih =>
    have hothers := other_ptrs (h ▸ hnodup)
    have hself : decide (dst.ptr = dst.ptr) := decide_eq_true rfl
    have hfind : p.ctrlDst.find? (·.ptr = dst.ptr) = some dst := by
      rw [h,List.find?_append,List.find?_eq_none.mpr fun x hx => by simp [hothers x hx],Option.none_or,
        List.find?_cons_of_pos]
      exact hself
    have hsub : ∀ {x : WpaCtrlDst}, x.ptr = dst.ptr → ∀ {d''}, d''.Sublist (d ++ [x]) →
        ((d'' ++ r).map WpaCtrlDst.ptr).Nodup := fun {x} hx {d''} hsub => by
      have hptrs : ((d ++ [x]) ++ r).map WpaCtrlDst.ptr = p.ctrlDst.map WpaCtrlDst.ptr := by
        rw [h]
        simp [hx]
      exact (hptrs ▸ hnodup).sublist ((hsub.append_right r).map _)
    -- the rest of the loop, with what became of this monitor
    have hrest : ∀ (p'' : CtrlSock) (x : WpaCtrlDst) (d'' : List WpaCtrlDst),
        (∀ closed, Visited level buf closed dst x) → d''.Sublist (d ++ [x]) →
        p'' = { p with ctrlDst := d'' ++ r } →
        ∃ closed d' l r', sendLoop results level buf (r.map WpaCtrlDst.ptr) p'' =
            .ok { p with sock := p.sock && !closed, ctrlDst := d' ++ r' } ∧
          d'.Sublist d ∧ l.Sublist (dst :: r) ∧ List.Forall₂ (Visited level buf closed) l r' := by
      rintro p'' x d'' hx hd'' rfl
      obtain ⟨closed,d',l,r',hrun,hd',hl,hr'⟩ := ih (p := { p with ctrlDst := d'' ++ r }) rfl
        (hsub (hx true).ptr_eq hd'')
      obtain ⟨d₁,l₁,r₁,rfl,hd₁,hl₁,hr₁⟩ := visited_before (hd'.trans hd'') (hx closed)
      refine ⟨closed,d₁,l₁ ++ l,r₁ ++ r',?_,hd₁,hl₁.append hl,List.rel_append hr₁ hr'⟩
      rw [hrun,List.append_assoc]
    rw [List.map_cons,sendLoop,hfind]
    simp only
    split
    · rename_i hbelow
      have hsame : p = { p with ctrlDst := d ++ [dst] ++ r } := by
        rw [List.append_assoc,List.singleton_append,← h]
      exact hrest p dst (d ++ [dst]) (fun _ => .below hbelow) (.refl _) hsame
    rename_i habove
    rw [h,updateDst_append hothers hself,List.append_cons]
    have hnoted : ∀ closed ok, Visited level buf closed dst (noted buf ok dst) := fun _ ok =>
      .tried habove ok
    split
    · rename_i hsent
      exact hrest _ _ _ (hnoted · (results dst.ptr = .sent)) (.refl _) rfl
    obtain ⟨d'',hd'',heq⟩ : ∃ d'', d''.Sublist (d ++ [noted buf (results dst.ptr = .sent) dst]) ∧
        (if dst.errors+1 > 10 ∨ results dst.ptr = .refused then
          (CtrlSock.detach { p with ctrlDst := d ++ [noted buf (results dst.ptr = .sent) dst] ++ r }
            dst.addr).1
        else { p with ctrlDst := d ++ [noted buf (results dst.ptr = .sent) dst] ++ r }) =
          { p with ctrlDst := d'' ++ r } := by
      split
      · exact detach_append rfl (List.mem_append_right d
          (List.mem_singleton_self (noted buf (results dst.ptr = .sent) dst))) rfl
      · exact ⟨_,.refl _,rfl⟩
    rw [heq]
    split
    · obtain ⟨d₁,l₁,r₁,rfl,hd₁,hl₁,hr₁⟩ := visited_before hd'' (hnoted true _)
      refine ⟨true,d₁,l₁ ++ r,r₁ ++ r,?_,hd₁,hl₁.append (.refl r),
        List.rel_append hr₁ (List.forall₂_same.mpr fun x _ => .missed rfl)⟩
      rw [Bool.not_true,Bool.and_false,List.append_assoc]
    · exact hrest _ _ d'' (hnoted · _) hd'' rfl

end Sending

section Invariants

/-- The packets that were meant for a monitor are among those that were sent on, and each of them was
sent to it once, or failed once. Only when the socket is closed the last one may be missing. -/
structure DstSound (packets : List Bytes) (sock : Bool) (dst : WpaCtrlDst) : Prop where
  wanted : dst.wanted.Sublist packets
  tried : dst.tries.map Prod.fst <+: dst.wanted
  missing : dst.wanted.length ≤ dst.tries.length+1
  all : sock = true → dst.tries.map Prod.fst = dst.wanted
  errors : dst.errors = (dst.tries.reverse.takeWhile (!·.2)).length

def packets (ifname : CtrlMsg → Option Bytes) (l : List CtrlMsg) : List Bytes :=
  l.filterMap fun msg => packet (ifname msg) msg

structure Attached (ifname : CtrlMsg → Option Bytes) (p : CtrlSock) : Prop where
  nodup : (p.ctrlDst.map WpaCtrlDst.ptr).Nodup
  fresh : ∀ dst ∈ p.ctrlDst, dst.ptr < p.nextPtr
  each : ∀ dst ∈ p.ctrlDst, DstSound (packets ifname p.handled) p.sock dst

/-- Every message was sent on, waits or was lost, and those that were sent on and those that wait are
in their order. -/
structure Accounts (p : CtrlSock) : Prop where
  kept : p.issued.Perm (p.handled ++ (p.msgQueue ++ p.lost))
  ordered : (p.handled ++ p.msgQueue).Sublist p.issued
  few : p.issued.length < 2^32 → p.throttleCount ≤ p.issued.length ∧
    p.msgQueue.length ≤ p.throttleCount ∧ p.msgQueue.length < 2000

variable {ifname : CtrlMsg → Option Bytes} {p : CtrlSock}

theorem DstSound.later {packets more : List Bytes} {sock sock' : Bool} {dst : WpaCtrlDst}
    (h : DstSound packets sock dst) (hsock : sock' = true → sock = true) :
    DstSound (packets ++ more) sock' dst :=
  { h with
    wanted := h.wanted.trans (List.sublist_append_left _ _)
    all := fun hopen => h.all (hsock hopen) }

theorem takeWhile_noted (tries : List (Bytes × Bool)) (buf : Bytes) (ok : Bool) :
    ((tries ++ [(buf,ok)]).reverse.takeWhile (!·.2)).length =
      if ok then 0 else (tries.reverse.takeWhile (!·.2)).length+1 := by
  rw [List.reverse_append,List.reverse_singleton,List.singleton_append,List.takeWhile_cons]
  cases ok <;> rfl

/-- A packet that is meant for a monitor is sent to it, unless the socket is closed before. -/
theorem DstSound.visited {packets : List Bytes} {level : ℤ} {buf : Bytes} {closed : Bool}
    {dst dst' : WpaCtrlDst} (h : DstSound packets true dst)
    (hdst : Visited level buf closed
      (if level < dst.debugLevel then dst else { dst with wanted := dst.wanted ++ [buf] }) dst') :
    DstSound (packets ++ [buf]) (!closed) dst' := by
  by_cases hlevel : level < dst.debugLevel
  · rw [if_pos hlevel] at hdst
    cases hdst with
    | below _ => exact h.later fun _ => rfl
    | tried habove _ => exact absurd hlevel habove
    | missed _ => exact h.later fun _ => rfl
  · rw [if_neg hlevel] at hdst
    have hwanted : (dst.wanted ++ [buf]).Sublist (packets ++ [buf]) := h.wanted.append (.refl _)
    cases hdst with
    | below hbelow => exact absurd hbelow hlevel
    | tried _ ok =>
      have htries : (dst.tries ++ [(buf,ok)]).map Prod.fst = dst.wanted ++ [buf] := by
        rw [List.map_append,h.all rfl]
        rfl
      have hlen := congrArg List.length htries
      rw [List.length_map] at hlen
      refine ⟨hwanted,htries ▸ List.prefix_refl _,hlen ▸ Nat.le_succ _,fun _ => htries,?_⟩
      change (if ok then 0 else dst.errors+1) = _
      rw [noted,takeWhile_noted,h.errors]
    | missed hclosed =>
      have hlen := congrArg List.length (h.all rfl)
      rw [List.length_map] at hlen
      refine ⟨hwanted,h.tried.trans (List.prefix_append _ _),?_,fun hopen => ?_,h.errors⟩
      · rw [List.length_append,← hlen]
        exact le_refl _
      · rw [hclosed] at hopen
        cases hopen

/-- What `wpa_supplicant_ctrl_iface_send` does: the message is over, whoever got it. -/
theorem Attached.send (h : p.Attached ifname) (results : ℕ → SendResult) (msg : CtrlMsg) :
    ∃ sock dsts, p.send results (ifname msg) msg =
        .ok { p with sock := sock, ctrlDst := dsts, handled := p.handled ++ [msg] } ∧
      Attached ifname { p with sock := sock, ctrlDst := dsts, handled := p.handled ++ [msg] } ∧
      (sock = true → p.sock = true) := by
  have hmore : packets ifname (p.handled ++ [msg]) =
      packets ifname p.handled ++ (packet (ifname msg) msg).toList := by
    rw [packets,List.filterMap_append]
    cases hpacket : packet (ifname msg) msg <;> simp [packets,hpacket]
  have hstill : Attached ifname { p with handled := p.handled ++ [msg] } :=
    ⟨h.nodup,h.fresh,fun dst hdst => by
      change DstSound (packets ifname (p.handled ++ [msg])) p.sock dst
      rw [hmore]
      exact (h.each dst hdst).later id⟩
  rw [CtrlSock.send]
  split
  · exact ⟨p.sock,p.ctrlDst,rfl,hstill,id⟩
  rename_i hgo
  have hsock : p.sock = true := Bool.eq_true_of_not_eq_false fun hno => hgo (.inl hno)
  cases hpacket : packet (ifname msg) msg with
  | none => exact ⟨p.sock,p.ctrlDst,rfl,hstill,id⟩
  | some buf =>
    let meant := fun (dst : WpaCtrlDst) =>
      if msg.level < dst.debugLevel then dst else { dst with wanted := dst.wanted ++ [buf] }
    have hptr : ∀ dst, (meant dst).ptr = dst.ptr := fun dst => by
      change (if _ then _ else _ : WpaCtrlDst).ptr = _
      split <;> rfl
    have hptrs : (p.ctrlDst.map meant).map WpaCtrlDst.ptr = p.ctrlDst.map WpaCtrlDst.ptr := by
      rw [List.map_map]
      exact List.map_congr_left fun dst _ => hptr dst
    obtain ⟨closed,d',l,r',hrun,hd',hl,hvisited⟩ := sendLoop_ok results msg.level buf (d := [])
      (p := { p with handled := p.handled ++ [msg], ctrlDst := p.ctrlDst.map meant }) rfl
      (hptrs ▸ h.nodup)
    rw [List.sublist_nil.mp hd',List.nil_append,hptrs] at hrun
    have hsame : r'.map WpaCtrlDst.ptr = l.map WpaCtrlDst.ptr := by
      clear hrun hl
      induction hvisited with
      | nil => rfl
      | cons hx _ ih => rw [List.map_cons,List.map_cons,hx.ptr_eq,ih]
    have hsub := hl.map WpaCtrlDst.ptr
    rw [← hsame,hptrs] at hsub
    refine ⟨p.sock && !closed,r',hrun,⟨h.nodup.sublist hsub,fun dst hdst => ?_,fun dst hdst => ?_⟩,
      fun hopen => (Bool.and_eq_true_iff.mp hopen).1⟩
    · obtain ⟨x,hx,hxptr⟩ := List.mem_map.mp (hsub.subset (List.mem_map_of_mem hdst))
      exact hxptr ▸ h.fresh x hx
    · obtain ⟨y,hy,hxy⟩ : ∃ y ∈ l, Visited msg.level buf closed y dst := by
        obtain ⟨i,hi,rfl⟩ := List.mem_iff_getElem.mp hdst
        have hi' : i < l.length := hvisited.length_eq ▸ hi
        exact ⟨l[i],List.getElem_mem hi',hvisited.get hi' hi⟩
      obtain ⟨x,hx,rfl⟩ := List.mem_map.mp (hl.subset hy)
      have hbefore := h.each x hx
      rw [hsock] at hbefore
      change DstSound (packets ifname (p.handled ++ [msg])) (p.sock && !closed) dst
      rw [hmore,hpacket,hsock,Bool.true_and]
      exact hbefore.visited hxy

structure Sound (ifname : CtrlMsg → Option Bytes) (p : CtrlSock) : Prop where
  attached : p.Attached ifname
  accounts : p.Accounts

theorem sound_init (sock : Bool) : (init sock).Sound ifname :=
  ⟨⟨.nil,fun _ h => absurd h List.not_mem_nil,fun _ h => absurd h List.not_mem_nil⟩,
    ⟨.refl _,.refl _,fun _ => ⟨le_refl _,le_refl _,(by decide : 0 < 2000)⟩⟩⟩

theorem Sound.attach (h : p.Sound ifname) (from' : Bytes) (mem : Bool) :
    (p.attach from' mem).1.Sound ifname := by
  rw [CtrlSock.attach]
  split
  · refine ⟨⟨?_,fun dst hdst => ?_,fun dst hdst => ?_⟩,⟨h.accounts.kept,h.accounts.ordered,h.accounts.few⟩⟩
    · refine List.nodup_cons.mpr ⟨fun hmem => ?_,h.attached.nodup⟩
      obtain ⟨dst,hdst,hptr⟩ := List.mem_map.mp hmem
      exact (h.attached.fresh dst hdst).ne hptr
    · rcases List.mem_cons.mp hdst with rfl | hdst
      · exact Nat.lt_succ_self _
      · exact (h.attached.fresh dst hdst).trans (Nat.lt_succ_self _)
    · rcases List.mem_cons.mp hdst with rfl | hdst
      · exact ⟨List.nil_sublist _,List.nil_prefix,Nat.zero_le _,fun _ => rfl,rfl⟩
      · exact h.attached.each dst hdst
  · exact h

theorem Sound.detach (h : p.Sound ifname) (from' : Bytes) : (p.detach from').1.Sound ifname := by
  rw [CtrlSock.detach]
  split
  · have hsub : (p.ctrlDst.eraseP (·.addr = from')).Sublist p.ctrlDst := List.eraseP_sublist
    exact ⟨⟨h.attached.nodup.sublist (hsub.map _),fun dst hdst => h.attached.fresh dst (hsub.subset hdst),
      fun dst hdst => h.attached.each dst (hsub.subset hdst)⟩,
      ⟨h.accounts.kept,h.accounts.ordered,h.accounts.few⟩⟩
  · exact h

theorem Sound.level (h : p.Sound ifname) (from' txt : Bytes) : (p.level from' txt).1.Sound ifname := by
  rw [CtrlSock.level]
  split
  · refine ⟨⟨?_,fun dst hdst => ?_,fun dst hdst => ?_⟩,⟨h.accounts.kept,h.accounts.ordered,h.accounts.few⟩⟩
    · rw [updateDst_map]
      · exact h.attached.nodup
      · exact fun _ => rfl
    · rcases mem_updateDst hdst with hdst | ⟨x,hx,rfl⟩
      · exact h.attached.fresh dst hdst
      · exact h.attached.fresh x hx
    · rcases mem_updateDst hdst with hdst | ⟨x,hx,rfl⟩
      · exact h.attached.each dst hdst
      · have hsame := h.attached.each x hx
        exact ⟨hsame.wanted,hsame.tried,hsame.missing,hsame.all,hsame.errors⟩
  · exact h

theorem Sound.close (h : p.Sound ifname) : Sound ifname { p with sock := false } :=
  ⟨⟨h.attached.nodup,h.attached.fresh,fun dst hdst =>
    { h.attached.each dst hdst with all := fun hopen => by cases hopen }⟩,
    ⟨h.accounts.kept,h.accounts.ordered,h.accounts.few⟩⟩

theorem Sound.receiveGlobal (h : p.Sound ifname) {from' buf reply : Bytes} {mem : Bool} {p' : CtrlSock}
    (hrun : p.receiveGlobal from' buf mem = some (p',reply)) : p'.Sound ifname := by
  rw [CtrlSock.receiveGlobal] at hrun
  split at hrun
  · cases hrun
    exact h.attach from' mem
  split at hrun
  · cases hrun
    exact h.detach from'
  · cases hrun

theorem Sound.receive (h : p.Sound ifname) {from' buf reply : Bytes} {mem : Bool} {result : SendResult}
    {p' : CtrlSock} (hrun : p.receive from' buf mem result = some (p',reply)) : p'.Sound ifname := by
  have hreply : ∀ {q : CtrlSock × ℤ} {attaches : Bool}, q.1.Sound ifname →
      Sound ifname (if result ≠ .sent ∧ attaches ∧ q.2 = 0 then
        (CtrlSock.detach (if result = .full false then { q.1 with sock := false } else q.1) from').1
      else if result = .full false then { q.1 with sock := false } else q.1) := by
    intro q attaches hq
    have hclosed : Sound ifname (if result = .full false then { q.1 with sock := false } else q.1) := by
      split
      · exact hq.close
      · exact hq
    split
    · exact hclosed.detach from'
    · exact hclosed
  rw [CtrlSock.receive] at hrun
  simp only at hrun
  split at hrun
  · cases hrun
    exact hreply (h.attach from' mem)
  split at hrun
  · cases hrun
    exact hreply (h.detach from')
  split at hrun
  · cases hrun
    exact hreply (h.level from' _)
  · cases hrun

/-- The limit drops the oldest message only. -/
theorem queueLimit_cases (p : CtrlSock) : p.throttleCount < 2000 ∧ p.queueLimit = p ∨
    ¬ p.throttleCount < 2000 ∧ ∃ gone rest, p.msgQueue = gone ++ rest ∧
      rest.length = p.msgQueue.length-1 ∧
      p.queueLimit = { p with msgQueue := rest, lost := p.lost ++ gone } := by
  rw [queueLimit]
  split
  · exact .inl ⟨‹_›,rfl⟩
  · refine .inr ⟨‹_›,p.msgQueue.take 1,p.msgQueue.tail,?_,List.length_tail,rfl⟩
    rw [← List.drop_one,List.take_append_drop]

/-- A message that waits comes to the end of the queue. -/
theorem Accounts.queued (h : p.Accounts) (env : SockEnv) (msg : CtrlMsg) :
    Accounts (queueMsg (queueLimit { p with issued := p.issued ++ [msg]
                                            throttleCount := (p.throttleCount+1)%2^32 }) env msg) ∧
    ∀ m ∈ (queueMsg (queueLimit { p with issued := p.issued ++ [msg]
                                         throttleCount := (p.throttleCount+1)%2^32 }) env msg).msgQueue,
      m ∈ p.msgQueue ∨ m = msg ∧ env.mem = true := by
  obtain ⟨gone,rest,hsplit,heq,hlen⟩ : ∃ gone rest, p.msgQueue = gone ++ rest ∧
      queueLimit { p with issued := p.issued ++ [msg], throttleCount := (p.throttleCount+1)%2^32 } =
        { p with issued := p.issued ++ [msg], throttleCount := (p.throttleCount+1)%2^32
                 msgQueue := rest, lost := p.lost ++ gone } ∧
      (p.issued.length+1 < 2^32 → rest.length < p.throttleCount+1 ∧ rest.length < 1999) := by
    have hfew : p.issued.length+1 < 2^32 → p.throttleCount+1 < 2^32 ∧
        p.msgQueue.length ≤ p.throttleCount ∧ p.msgQueue.length < 2000 := fun hlt => by
      have hfew := h.few (by omega)
      omega
    rcases queueLimit_cases { p with issued := p.issued ++ [msg]
                                     throttleCount := (p.throttleCount+1)%2^32 } with
      ⟨hlt,heq⟩ | ⟨hge,gone,rest,hsplit,hlen,heq⟩
    · refine ⟨[],p.msgQueue,rfl,by rw [heq,List.append_nil],fun hissued => ?_⟩
      obtain ⟨hcount,hle,-⟩ := hfew hissued
      change (p.throttleCount+1)%2^32 < 2000 at hlt
      rw [Nat.mod_eq_of_lt hcount] at hlt
      omega
    · refine ⟨gone,rest,hsplit,heq,fun hissued => ?_⟩
      obtain ⟨hcount,hle,hqueue⟩ := hfew hissued
      change rest.length = p.msgQueue.length-1 at hlen
      change ¬ (p.throttleCount+1)%2^32 < 2000 at hge
      rw [Nat.mod_eq_of_lt hcount] at hge
      omega
  have hrest : (p.handled ++ rest).Sublist p.issued :=
    ((List.Sublist.refl _).append (hsplit ▸ List.sublist_append_right gone rest)).trans h.ordered
  have hcount : ∀ m, p.issued.count m =
      p.handled.count m+(gone.count m+rest.count m+p.lost.count m) := fun m => by
    have heq := h.kept.count_eq m
    rwa [List.count_append,List.count_append,hsplit,List.count_append] at heq
  rw [heq,queueMsg]
  split
  · rename_i hmem
    refine ⟨⟨List.perm_iff_count.mpr fun m => ?_,?_,fun hissued => ?_⟩,fun m hm => ?_⟩
    · have heq := hcount m
      simp only [List.count_append]
      omega
    · rw [← List.append_assoc]
      exact hrest.append (.refl _)
    · rw [List.length_append,List.length_singleton] at hissued
      have hfew := h.few (by omega)
      have hqueue := hlen hissued
      simp only [List.length_append,List.length_singleton]
      omega
    · rcases List.mem_append.mp hm with hm | hm
      · exact .inl (hsplit ▸ List.mem_append_right gone hm)
      · exact .inr ⟨List.mem_singleton.mp hm,hmem⟩
  · refine ⟨⟨List.perm_iff_count.mpr fun m => ?_,?_,fun hissued => ?_⟩,fun m hm => ?_⟩
    · have heq := hcount m
      simp only [List.count_append]
      omega
    · exact hrest.trans (List.sublist_append_left _ _)
    · rw [List.length_append,List.length_singleton] at hissued
      have hfew := h.few (by omega)
      have hqueue := hlen hissued
      simp only [List.length_append,List.length_singleton]
      omega
    · exact .inl (hsplit ▸ List.mem_append_right gone hm)

theorem Sound.post (h : p.Sound ifname) (env : SockEnv) (msg : CtrlMsg) :
    ∃ p' waits, p.post env ifname msg = .ok (p',waits) ∧ p'.Sound ifname ∧
      ∀ m ∈ p'.msgQueue, m ∈ p.msgQueue ∨ m = msg ∧ waits = true := by
  rw [CtrlSock.post]
  split
  · obtain ⟨haccounts,hqueue⟩ := h.accounts.queued env msg
    refine ⟨_,env.mem,rfl,⟨?_,haccounts⟩,hqueue⟩
    have hsame : ∀ q : CtrlSock, q.ctrlDst = p.ctrlDst → q.nextPtr = p.nextPtr →
        q.handled = p.handled → q.sock = p.sock → q.Attached ifname := by
      intro q hdst hptr hhandled hsock
      refine ⟨hdst ▸ h.attached.nodup,?_,?_⟩
      · rw [hdst,hptr]
        exact h.attached.fresh
      · rw [hdst,hhandled,hsock]
        exact h.attached.each
    rw [queueMsg,queueLimit]
    split <;> split <;> exact hsame _ rfl rfl rfl rfl
  · rename_i hgo
    have hnil : p.msgQueue = [] := by
      by_contra hne
      exact hgo (.inl hne)
    have hnow : Attached ifname { p with issued := p.issued ++ [msg], throttleCount := 0 } :=
      ⟨h.attached.nodup,h.attached.fresh,h.attached.each⟩
    obtain ⟨sock,dsts,hrun,hsent,-⟩ := hnow.send (env.results 0) msg
    rw [hrun]
    refine ⟨_,false,rfl,⟨hsent,⟨List.perm_iff_count.mpr fun m => ?_,?_,fun hissued => ?_⟩⟩,
      fun m hm => .inl hm⟩
    · have heq := h.accounts.kept.count_eq m
      simp only [List.count_append] at heq ⊢
      omega
    · have hordered := h.accounts.ordered
      simp only [hnil,List.append_nil] at hordered ⊢
      exact hordered.append (.refl _)
    · simp only [hnil,List.length_nil]
      exact ⟨Nat.zero_le _,le_refl _,by decide⟩

/-- The messages that wait are sent until the socket is busy. -/
theorem sendPending_ok (env : SockEnv) (i : ℕ) {l : List CtrlMsg} (h : p.Sound ifname)
    (hl : p.msgQueue = l) :
    ∃ p', sendPending env ifname i l p = .ok p' ∧ p'.Sound ifname ∧ p'.msgQueue ⊆ l ∧
      (p'.msgQueue ≠ [] → p'.sock = true) := by
  induction l generalizing i p with
  | nil => exact ⟨p,rfl,h,by rw [hl]; exact List.Subset.refl _,fun hne => absurd hl hne⟩
  | cons msg rest ih =>
    rw [sendPending]
    split
    · rename_i hbusy
      exact ⟨p,rfl,h,by rw [hl]; exact List.Subset.refl _,
        fun _ => (Bool.and_eq_true_iff.mp hbusy).1⟩
    · have hnow : Attached ifname { p with msgQueue := rest } :=
        ⟨h.attached.nodup,h.attached.fresh,h.attached.each⟩
      obtain ⟨sock,dsts,hrun,hsent,-⟩ := hnow.send (env.results i) msg
      rw [hrun,ok_bind]
      have hkept := h.accounts.kept
      have hordered := h.accounts.ordered
      rw [hl] at hkept hordered
      obtain ⟨p',hrun',hp',hsub,hopen⟩ := ih (i+1)
        (p := { p with msgQueue := rest, sock := sock, ctrlDst := dsts
                       handled := p.handled ++ [msg] })
        ⟨hsent,⟨by simpa using hkept,by simpa using hordered,fun hissued => by
          have hfew := h.accounts.few hissued
          rw [hl,List.length_cons] at hfew
          simp only
          omega⟩⟩ rfl
      exact ⟨p',hrun',hp',List.Subset.trans hsub (List.subset_cons_self _ _),hopen⟩

/-- The messages of an interface that is gone do not wait any more. -/
theorem Sound.drop (h : p.Sound ifname) (q : CtrlMsg → Bool) : Sound ifname { p with
    msgQueue := p.msgQueue.filter (!q ·), lost := p.lost ++ p.msgQueue.filter q } := by
  refine ⟨⟨h.attached.nodup,h.attached.fresh,h.attached.each⟩,⟨List.perm_iff_count.mpr fun m => ?_,
    ((List.Sublist.refl _).append List.filter_sublist).trans h.accounts.ordered,fun hissued => ?_⟩⟩
  · have heq := h.accounts.kept.count_eq m
    have hsplit := (List.filter_append_perm q p.msgQueue).count_eq m
    simp only [List.count_append] at heq hsplit ⊢
    omega
  · have hfew := h.accounts.few hissued
    have hle := List.length_filter_le (!q ·) p.msgQueue
    simp only
    omega

end Invariants

section Failures

/-- Each program is attached once, and none of them failed more than ten times in a row. -/
def Bounded (l : List WpaCtrlDst) : Prop :=
  (l.map WpaCtrlDst.addr).Nodup ∧ ∀ dst ∈ l, dst.errors ≤ 10

variable {ifname : CtrlMsg → Option Bytes} {p p' : CtrlSock}

theorem Bounded.sublist {l l' : List WpaCtrlDst} (h : Bounded l) (hsub : l'.Sublist l) : Bounded l' :=
  ⟨h.1.sublist (hsub.map _),fun dst hdst => h.2 dst (hsub.subset hdst)⟩

theorem Bounded.map {l : List WpaCtrlDst} (h : Bounded l) {f : WpaCtrlDst → WpaCtrlDst}
    (hf : ∀ dst, (f dst).addr = dst.addr ∧ (f dst).errors = dst.errors) : Bounded (l.map f) := by
  refine ⟨?_,fun dst hdst => ?_⟩
  · have haddr : WpaCtrlDst.addr ∘ f = WpaCtrlDst.addr := funext fun dst => (hf dst).1
    rw [List.map_map,haddr]
    exact h.1
  · obtain ⟨x,hx,rfl⟩ := List.mem_map.mp hdst
    rw [(hf x).2]
    exact h.2 x hx

theorem Bounded.update {l : List WpaCtrlDst} (h : Bounded l) {q : WpaCtrlDst → Bool}
    {f : WpaCtrlDst → WpaCtrlDst} (hf : ∀ dst, (f dst).addr = dst.addr ∧ (f dst).errors = dst.errors) :
    Bounded (updateDst l q f) := by
  refine ⟨?_,fun dst hdst => ?_⟩
  · rw [updateDst_map]
    · exact h.1
    · exact fun x => (hf x).1
  · rcases mem_updateDst hdst with hdst | ⟨x,hx,rfl⟩
    · exact h.2 dst hdst
    · rw [(hf x).2]
      exact h.2 x hx

theorem mem_updateDst_find {l : List WpaCtrlDst} {q : WpaCtrlDst → Bool} {dst x : WpaCtrlDst}
    (hfind : l.find? q = some dst) {f : WpaCtrlDst → WpaCtrlDst} (h : x ∈ updateDst l q f) :
    x ∈ l ∨ x = f dst := by
  induction l with
  | nil => exact absurd h List.not_mem_nil
  | cons y l ih =>
    rw [updateDst] at h
    split at h
    · rename_i hy
      rw [List.find?_cons_of_pos hy] at hfind
      cases hfind
      rcases List.mem_cons.mp h with rfl | h
      · exact .inr rfl
      · exact .inl (List.mem_cons_of_mem _ h)
    · rename_i hy
      rw [List.find?_cons_of_neg hy] at hfind
      rcases List.mem_cons.mp h with rfl | h
      · exact .inl List.mem_cons_self
      · exact (ih hfind h).imp (List.mem_cons_of_mem y) id

theorem detach_sublist (p : CtrlSock) (from' : Bytes) :
    (p.detach from').1.ctrlDst.Sublist p.ctrlDst := by
  rw [detach]
  split
  · exact List.eraseP_sublist
  · exact .refl _

/-- Nobody is left at an address that was detached. -/
theorem addr_of_detach (h : (p.ctrlDst.map WpaCtrlDst.addr).Nodup) {from' : Bytes} {dst : WpaCtrlDst}
    (hdst : dst ∈ (p.detach from').1.ctrlDst) : dst.addr ≠ from' := by
  rw [detach] at hdst
  split at hdst
  · exact ((Exchange.Keyed.mem_eraseP h).mp hdst).2
  · rename_i hany
    intro heq
    exact hany (List.any_eq_true.mpr ⟨dst,hdst,decide_eq_true heq⟩)

theorem sendLoop_bounded {results : ℕ → SendResult} {level : ℤ} {buf : Bytes} {l : List ℕ}
    (h : Bounded p.ctrlDst) (hrun : sendLoop results level buf l p = .ok p') : Bounded p'.ctrlDst := by
  induction l generalizing p with
  | nil =>
    cases hrun
    exact h
  | cons ptr next ih =>
    rw [sendLoop] at hrun
    split at hrun
    · cases hrun
    rename_i dst hfind
    split at hrun
    · exact ih h hrun
    simp only at hrun
    have hnodup := h.1
    rw [← updateDst_map (noted buf (results ptr = .sent)) WpaCtrlDst.addr (fun _ => rfl)] at hnodup
    have hmem : ∀ x ∈ updateDst p.ctrlDst (·.ptr = ptr) (noted buf (results ptr = .sent)),
        x ∈ p.ctrlDst ∨ x = noted buf (results ptr = .sent) dst := fun x hx =>
      mem_updateDst_find hfind hx
    generalize updateDst p.ctrlDst (·.ptr = ptr) (noted buf (results ptr = .sent)) = dsts at *
    split at hrun
    · rename_i hsent
      refine ih ⟨hnodup,fun x hx => ?_⟩ hrun
      rcases hmem x hx with hx | rfl
      · exact h.2 x hx
      · rw [noted,hsent]
        exact Nat.zero_le _
    rename_i hfailed
    have hleft : Bounded (if dst.errors+1 > 10 ∨ results ptr = .refused then
        (CtrlSock.detach { p with ctrlDst := dsts } dst.addr).1
        else { p with ctrlDst := dsts }).ctrlDst := by
      split
      · refine ⟨hnodup.sublist ((detach_sublist _ _).map _),fun x hx => ?_⟩
        have hne := addr_of_detach hnodup hx
        rcases hmem x ((detach_sublist _ _).subset hx) with hx | rfl
        · exact h.2 x hx
        · exact absurd rfl hne
      · rename_i hfew
        refine ⟨hnodup,fun x hx => ?_⟩
        rcases hmem x hx with hx | rfl
        · exact h.2 x hx
        · rw [noted,decide_eq_false hfailed]
          exact not_lt.mp fun hlt => hfew (.inl hlt)
    split at hrun
    · cases hrun
      exact hleft
    · exact ih hleft hrun

theorem send_bounded {results : ℕ → SendResult} {name : Option Bytes} {msg : CtrlMsg}
    (hrun : p.send results name msg = .ok p') (h : Bounded p.ctrlDst) : Bounded p'.ctrlDst := by
  rw [CtrlSock.send] at hrun
  split at hrun
  · cases hrun
    exact h
  split at hrun
  · cases hrun
    exact h
  · refine sendLoop_bounded (h.map fun dst => ?_) hrun
    split <;> exact ⟨rfl,rfl⟩

theorem post_bounded {env : SockEnv} {msg : CtrlMsg} {waits : Bool} (h : Bounded p.ctrlDst)
    (hrun : p.post env ifname msg = .ok (p',waits)) : Bounded p'.ctrlDst := by
  rw [post] at hrun
  split at hrun
  · cases hrun
    rw [queueMsg,queueLimit]
    split <;> split <;> exact h
  · cases hsend : CtrlSock.send { p with issued := p.issued ++ [msg], throttleCount := 0 }
        (env.results 0) (ifname msg) msg with
    | error e =>
      rw [hsend] at hrun
      cases hrun
    | ok p'' =>
      rw [hsend] at hrun
      cases hrun
      exact send_bounded hsend h

theorem sendPending_bounded {env : SockEnv} {i : ℕ} {l : List CtrlMsg} (h : Bounded p.ctrlDst)
    (hrun : sendPending env ifname i l p = .ok p') : Bounded p'.ctrlDst := by
  induction l generalizing i p with
  | nil =>
    cases hrun
    exact h
  | cons msg rest ih =>
    rw [sendPending] at hrun
    split at hrun
    · cases hrun
      exact h
    cases hsend : CtrlSock.send { p with msgQueue := rest } (env.results i) (ifname msg) msg with
    | error e =>
      rw [hsend] at hrun
      cases hrun
    | ok p'' =>
      rw [hsend,ok_bind] at hrun
      exact ih (send_bounded hsend h) hrun

theorem attach_bounded (h : Bounded p.ctrlDst) {from' : Bytes}
    (honce : ∀ dst ∈ p.ctrlDst, dst.addr ≠ from') (mem : Bool) :
    Bounded (p.attach from' mem).1.ctrlDst := by
  rw [attach]
  split
  · refine ⟨List.nodup_cons.mpr ⟨fun hmem => ?_,h.1⟩,fun dst hdst => ?_⟩
    · obtain ⟨dst,hdst,heq⟩ := List.mem_map.mp hmem
      exact honce dst hdst heq
    · rcases List.mem_cons.mp hdst with rfl | hdst
      · exact Nat.zero_le _
      · exact h.2 dst hdst
  · exact h

theorem detach_bounded (h : Bounded p.ctrlDst) (from' : Bytes) : Bounded (p.detach from').1.ctrlDst :=
  h.sublist (detach_sublist p from')

theorem level_bounded (h : Bounded p.ctrlDst) (from' txt : Bytes) :
    Bounded (p.level from' txt).1.ctrlDst := by
  rw [level]
  split
  · exact h.update fun _ => ⟨rfl,rfl⟩
  · exact h

theorem receive_bounded (h : Bounded p.ctrlDst) {from' buf reply : Bytes} {mem : Bool}
    {result : SendResult} (honce : buf = ascii "ATTACH" → ∀ dst ∈ p.ctrlDst, dst.addr ≠ from')
    (hrun : p.receive from' buf mem result = some (p',reply)) : Bounded p'.ctrlDst := by
  have hreply : ∀ {q : CtrlSock × ℤ} {attaches : Bool}, Bounded q.1.ctrlDst →
      Bounded (if result ≠ .sent ∧ attaches ∧ q.2 = 0 then
        (CtrlSock.detach (if result = .full false then { q.1 with sock := false } else q.1) from').1
      else if result = .full false then { q.1 with sock := false } else q.1).ctrlDst := by
    intro q attaches hq
    have hclosed : Bounded
        (if result = .full false then { q.1 with sock := false } else q.1).ctrlDst := by
      split <;> exact hq
    split
    · exact detach_bounded hclosed from'
    · exact hclosed
  rw [receive] at hrun
  simp only at hrun
  split at hrun
  · rename_i hattach
    cases hrun
    exact hreply (attach_bounded h (honce (of_decide_eq_true hattach)) mem)
  split at hrun
  · cases hrun
    exact hreply (detach_bounded h from')
  split at hrun
  · cases hrun
    exact hreply (level_bounded h from' _)
  · cases hrun

theorem receiveGlobal_bounded (h : Bounded p.ctrlDst) {from' buf reply : Bytes} {mem : Bool}
    (honce : buf = ascii "ATTACH" → ∀ dst ∈ p.ctrlDst, dst.addr ≠ from')
    (hrun : p.receiveGlobal from' buf mem = some (p',reply)) : Bounded p'.ctrlDst := by
  rw [receiveGlobal] at hrun
  split at hrun
  · rename_i hattach
    cases hrun
    exact attach_bounded h (honce hattach) mem
  split at hrun
  · cases hrun
    exact detach_bounded h from'
  · cases hrun

end Failures

end CtrlSock

end WpaCliWrapper
