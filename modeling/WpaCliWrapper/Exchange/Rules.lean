import WpaCliWrapper.Exchange.Link

/-! Rules about exchanges: what every act and every exchange preserves, and what an exchange
does that starts with nothing outstanding. -/
namespace Exchange
namespace Link

variable {Req Rep : Type} {S : Server Req Rep}

/-- The server and the requests it has served satisfy `I`, and every request it has not served yet
satisfies `H`. -/
structure Guarded (I : S.State → List (Req × Rep) → Prop) (H : Req → Prop) (L : Link S) : Prop where
  served : I L.server L.done
  waiting : ∀ q ∈ L.waiting, H q

/-- Serving a request of the class `H` keeps `I`. -/
def Keeps (S : Server Req Rep) (I : S.State → List (Req × Rep) → Prop) (H : Req → Prop) : Prop :=
  ∀ c s done q, I s done → H q → I (S.serve c s q).1 (done ++ [(q,(S.serve c s q).2)])

section Guarded
variable {I : S.State → List (Req × Rep) → Prop} {H : Req → Prop} (hk : Keeps S I H)
include hk

theorem Guarded.answer {L : Link S} (h : Guarded I H L) (c : S.Choice) (b : Bool) :
    Guarded I H (L.answer c b) := by
  have hp : ∀ q ∈ (L.answer c b).waiting, H q := by
    rw [answer_waiting]
    exact fun q hq => h.waiting q (List.mem_of_mem_tail hq)
  refine ⟨?_,hp⟩
  cases hw : L.waiting with
  | nil => rw [answer_nil hw]; exact h.served
  | cons q qs =>
    rw [answer_cons hw]
    exact hk c L.server L.done q h.served (h.waiting q (by simp [hw]))

theorem Guarded.perform {L : Link S} (h : Guarded I H L) (a : Act S) :
    Guarded I H (L.perform a) := by
  cases a with
  | serve c => exact h.answer hk c true
  | lose c => exact h.answer hk c false
  | message m => exact ⟨h.served,h.waiting⟩
  | error => exact h

theorem Guarded.performAll {L : Link S} (h : Guarded I H L) (acts : List (Act S)) :
    Guarded I H (L.performAll acts) := by
  induction acts generalizing L with
  | nil => exact h
  | cons a acts ih => exact ih (h.perform hk a)

theorem Guarded.await {L : Link S} (h : Guarded I H L) (takes : Rep → Bool)
    (acts : List (Act S)) : Guarded I H (await takes acts L).1 := by
  induction acts generalizing L with
  | nil =>
    rcases inbox_cases takes L with hq | ⟨pre,r,rest,hin,hpre,hr⟩
    · rw [await_quiet_nil hq]; exact ⟨h.served,h.waiting⟩
    · rw [await_got hin hpre hr]; exact ⟨h.served,h.waiting⟩
  | cons a acts ih =>
    rcases inbox_cases takes L with hq | ⟨pre,r,rest,hin,hpre,hr⟩
    · have hc : Guarded I H { L with inbox := [] } := ⟨h.served,h.waiting⟩
      by_cases ha : a = .error
      · rw [ha,await_quiet_error hq]; exact hc
      · rw [await_cons hq a acts ha]; exact ih (hc.perform hk a)
    · rw [await_got hin hpre hr]; exact ⟨h.served,h.waiting⟩

omit hk in
/-- Sending a request of the class `H`. -/
theorem Guarded.push {L : Link S} (h : Guarded I H L) {q : Req} (hq : H q) :
    Guarded I H { L with waiting := L.waiting ++ [q] } := by
  refine ⟨h.served,fun x hx => ?_⟩
  rcases List.mem_append.mp hx with hx | hx
  · exact h.waiting x hx
  · rw [List.mem_singleton.mp hx]
    exact hq

theorem Guarded.exchange {L : Link S} (h : Guarded I H L) (takes : Rep → Bool) {q : Req}
    (hq : H q) : Guarded I H (exchange takes q L).1 := by
  unfold Link.exchange
  split
  · exact h
  · rename_i d env _
    have he : Guarded I H { L with env := env } := ⟨h.served,h.waiting⟩
    have hb := he.performAll hk d.before
    dsimp only
    split
    · exact (hb.push hq).await hk takes d.acts
    · exact hb

theorem Guarded.drain {L : Link S} (h : Guarded I H L) (cs : List S.Choice) :
    Guarded I H (L.drain cs) := h.performAll hk _

end Guarded

/-- The client skips every posted message. -/
def Skips (S : Server Req Rep) (takes : Rep → Bool) : Prop := ∀ m, takes (S.post m) = false

/-- Every queued datagram that the client would take satisfies `P`. -/
def Queued (P : Rep → Prop) (takes : Rep → Bool) (L : Link S) : Prop :=
  ∀ r ∈ L.inbox, takes r → P r

section Queued
variable {P : Rep → Prop} {takes : Rep → Bool} (hm : Skips S takes)
  (hP : ∀ c s q, P (S.serve c s q).2)

theorem Queued.snoc {L : Link S} (h : Queued P takes L) {r : Rep} (hr : takes r → P r)
    (M : Link S) (hM : M.inbox = L.inbox ++ [r]) : Queued P takes M := by
  intro x hx ht
  rw [hM] at hx
  rcases List.mem_append.mp hx with hx | hx
  · exact h x hx ht
  · rw [List.mem_singleton.mp hx] at ht ⊢
    exact hr ht

include hP in
theorem Queued.answer {L : Link S} (h : Queued P takes L) (c : S.Choice) (b : Bool) :
    Queued P takes (L.answer c b) := by
  cases hw : L.waiting with
  | nil => rw [answer_nil hw]; exact h
  | cons q qs =>
    rw [answer_cons hw]
    cases b with
    | false => exact h
    | true => exact h.snoc (fun _ => hP c L.server q) _ rfl

include hm hP

theorem Queued.perform {L : Link S} (h : Queued P takes L) (a : Act S) :
    Queued P takes (L.perform a) := by
  cases a with
  | serve c => exact h.answer hP c true
  | lose c => exact h.answer hP c false
  | message m => exact h.snoc (fun ht => by rw [hm m] at ht; cases ht) _ rfl
  | error => exact h

theorem Queued.performAll {L : Link S} (h : Queued P takes L) (acts : List (Act S)) :
    Queued P takes (L.performAll acts) := by
  induction acts generalizing L with
  | nil => exact h
  | cons a acts ih => exact ih (h.perform hm hP a)

/-- Whatever the client reads, a datagram that ends its wait was queued before or given
meanwhile. -/
theorem Queued.await {L : Link S} (h : Queued P takes L) (reads : Rep → Bool)
    (acts : List (Act S)) : Queued P takes (await reads acts L).1 ∧
      ∀ r, (await reads acts L).2.2 = .got r → takes r → P r := by
  have hgot : ∀ (acts : List (Act S)) {L : Link S} {pre rest : List Rep} {r : Rep},
      Queued P takes L → L.inbox = pre ++ r :: rest → (∀ x ∈ pre, reads x = false) → reads r →
      Queued P takes (Link.await reads acts L).1 ∧
        ∀ x, (Link.await reads acts L).2.2 = .got x → takes x → P x := by
    intro acts L pre rest r h hin hpre hr
    rw [await_got hin hpre hr]
    refine ⟨fun x hx => h x (by rw [hin]; simp [hx]),fun x hx => ?_⟩
    cases hx
    exact h _ (by simp [hin])
  induction acts generalizing L with
  | nil =>
    rcases inbox_cases reads L with hq | ⟨pre,r,rest,hin,hpre,hr⟩
    · rw [await_quiet_nil hq]
      exact ⟨fun x hx => by simp at hx,by simp⟩
    · exact hgot [] h hin hpre hr
  | cons a acts ih =>
    rcases inbox_cases reads L with hq | ⟨pre,r,rest,hin,hpre,hr⟩
    · have hc : Queued P takes { L with inbox := [] } := fun x hx => by simp at hx
      by_cases ha : a = .error
      · rw [ha,await_quiet_error hq]
        exact ⟨hc,by simp⟩
      · rw [await_cons hq a acts ha]
        exact ih (hc.perform hm hP a)
    · exact hgot (a :: acts) h hin hpre hr

theorem Queued.exchange {L : Link S} (h : Queued P takes L) (reads : Rep → Bool) (q : Req) :
    Queued P takes (exchange reads q L).1 ∧
      ∀ r, (exchange reads q L).2.2 = .got r → takes r → P r := by
  unfold Link.exchange
  split
  · exact ⟨h,by simp⟩
  · rename_i d env _
    have he : Queued P takes { L with env := env } := h
    have hb := he.performAll hm hP d.before
    dsimp only
    split
    · have hp : Queued P takes { Link.performAll { L with env := env } d.before with
          waiting := (Link.performAll { L with env := env } d.before).waiting ++ [q] } := hb
      exact hp.await hm hP reads d.acts
    · exact ⟨hb,by simp⟩

end Queued

/-- Nothing is outstanding: every request is served and the client would skip whatever is
queued for it. -/
structure Idle (takes : Rep → Bool) (L : Link S) : Prop where
  settled : L.waiting = []
  quiet : ∀ r ∈ L.inbox, takes r = false

theorem Idle.sent_length {takes : Rep → Bool} {L : Link S} (h : Idle takes L) :
    L.sent.length = L.done.length := by
  simp [sent,h.settled]

/-- Exactly one request is waiting to be served. -/
structure Lone (takes : Rep → Bool) (q : Req) (L : Link S) : Prop where
  last : L.waiting = [q]
  quiet : ∀ r ∈ L.inbox, takes r = false

theorem Lone.drain_server {takes : Rep → Bool} {q : Req} {L : Link S} (h : Lone takes q L)
    (c : S.Choice) : (L.drain [c]).server = (S.serve c L.server q).1 := by
  change (L.answer c true).server = _
  rw [answer_cons h.last]

theorem drain_settled {L : Link S} (h : L.waiting = []) (cs : List S.Choice) : L.drain cs = L := by
  induction cs with
  | nil => rfl
  | cons c cs ih =>
    change (L.answer c true).drain cs = L
    rw [answer_nil h,ih]

theorem Lone.drain_done {takes : Rep → Bool} {q : Req} {L : Link S} (h : Lone takes q L)
    (c : S.Choice) (cs : List S.Choice) :
    (L.drain (c :: cs)).done = L.done ++ [(q,(S.serve c L.server q).2)] := by
  change ((L.answer c true).drain cs).done = _
  rw [answer_cons h.last,drain_settled rfl]

/-- How the only waiting request is served while the client waits, and whether the reply
arrives. -/
def served : List (Act S) → Option (S.Choice × Bool)
  | [] => none
  | .serve c :: _ => some (c, true)
  | .lose c :: _ => some (c, false)
  | .message _ :: as => served as
  | .error :: _ => none

/-- What a wait for the only outstanding request `q` leaves behind, given the server's state and
the requests served before it: `q` is served at most once, and the only reply the client can take is
the one to `q`. -/
def Answered (takes : Rep → Bool) (q : Req) (s : S.State) (done : List (Req × Rep))
    (acts : List (Act S)) (R : Link S × List Rep × Outcome Rep) : Prop :=
  match served acts with
  | none => Lone takes q R.1 ∧ R.1.server = s ∧ R.1.done = done ∧ ∀ r, R.2.2 ≠ .got r
  | some (c, arrives) =>
    Idle takes R.1 ∧ R.1.server = (S.serve c s q).1 ∧
      R.1.done = done ++ [(q,(S.serve c s q).2)] ∧
      if arrives && takes (S.serve c s q).2
        then R.2.2 = .got (S.serve c s q).2 else ∀ r, R.2.2 ≠ .got r

/-- While nothing is outstanding, acts only add messages that the client skips. -/
theorem Idle.perform {takes : Rep → Bool} (hm : Skips S takes) {L : Link S} (h : Idle takes L)
    (a : Act S) : Idle takes (L.perform a) ∧ (L.perform a).server = L.server ∧
      (L.perform a).done = L.done := by
  cases a with
  | serve c => simp [Link.perform,answer_nil h.settled,h]
  | lose c => simp [Link.perform,answer_nil h.settled,h]
  | message m =>
    refine ⟨⟨h.settled,fun r hr => ?_⟩,rfl,rfl⟩
    rcases List.mem_append.mp hr with hr | hr
    · exact h.quiet r hr
    · rw [List.mem_singleton.mp hr]; exact hm m
  | error => exact ⟨h,rfl,rfl⟩

theorem Idle.performAll {takes : Rep → Bool} (hm : Skips S takes) {L : Link S}
    (h : Idle takes L) (acts : List (Act S)) : Idle takes (L.performAll acts) ∧
      (L.performAll acts).server = L.server ∧ (L.performAll acts).done = L.done := by
  induction acts generalizing L with
  | nil => exact ⟨h,rfl,rfl⟩
  | cons a acts ih =>
    obtain ⟨hi,hs,hr⟩ := h.perform hm a
    obtain ⟨hi',hs',hr'⟩ := ih hi
    exact ⟨hi',hs'.trans hs,hr'.trans hr⟩

/-- Waiting with nothing outstanding never yields a reply. -/
theorem Idle.await {takes : Rep → Bool} (hm : Skips S takes) {L : Link S} (h : Idle takes L)
    (acts : List (Act S)) :
    Idle takes (await takes acts L).1 ∧ (await takes acts L).1.server = L.server ∧
      (await takes acts L).1.done = L.done ∧ ∀ r, (await takes acts L).2.2 ≠ .got r := by
  induction acts generalizing L with
  | nil =>
    rw [await_quiet_nil h.quiet]
    exact ⟨⟨h.settled,by simp⟩,rfl,rfl,by simp⟩
  | cons a acts ih =>
    have hc : Idle takes { L with inbox := [] } := ⟨h.settled,by simp⟩
    by_cases ha : a = .error
    · subst ha
      rw [await_quiet_error h.quiet]
      exact ⟨hc,rfl,rfl,by simp⟩
    · rw [await_cons h.quiet a acts ha]
      obtain ⟨hi,hs,hr⟩ := hc.perform hm a
      obtain ⟨hi',hs',hr',ho⟩ := ih hi
      exact ⟨hi',hs'.trans hs,hr'.trans hr,ho⟩

theorem Lone.await {takes : Rep → Bool} (hm : Skips S takes) {q : Req} {L : Link S}
    (h : Lone takes q L) (acts : List (Act S)) :
    Answered takes q L.server L.done acts (await takes acts L) := by
  induction acts generalizing L with
  | nil =>
    rw [await_quiet_nil h.quiet]
    exact ⟨⟨h.last,by simp⟩,rfl,rfl,by simp⟩
  | cons a acts ih =>
    have hc : Lone takes q { L with inbox := [] } := ⟨h.last,by simp⟩
    cases a with
    | error =>
      rw [await_quiet_error h.quiet]
      exact ⟨hc,rfl,rfl,by simp⟩
    | message m =>
      rw [await_cons h.quiet _ acts (by simp)]
      have hp : Lone takes q (Link.perform { L with inbox := [] } (.message m)) := by
        refine ⟨h.last,fun r hr => ?_⟩
        have hr : r = S.post m := by simpa [Link.perform] using hr
        exact hr ▸ hm m
      exact ih hp
    | serve c =>
      rw [await_cons h.quiet _ acts (by simp)]
      have hp : Link.perform { L with inbox := [] } (.serve c) =
          { L with server := (S.serve c L.server q).1,
                   done := L.done ++ [(q,(S.serve c L.server q).2)], waiting := [],
                   inbox := [(S.serve c L.server q).2] } := by
        simp [Link.perform,answer_cons hc.last]
      rw [hp]
      cases ht : takes (S.serve c L.server q).2 with
      | true =>
        rw [await_got (List.nil_append _).symm (by simp) ht]
        exact ⟨⟨rfl,by simp⟩,rfl,rfl,by simp [ht]⟩
      | false =>
        have hi : Idle takes { L with server := (S.serve c L.server q).1,
                                      done := L.done ++ [(q,(S.serve c L.server q).2)], waiting := [],
                                      inbox := [(S.serve c L.server q).2] } :=
          ⟨rfl,by simpa using ht⟩
        obtain ⟨hi',hs,hr,ho⟩ := hi.await hm acts
        exact ⟨hi',hs,hr,by simpa [ht] using ho⟩
    | lose c =>
      rw [await_cons h.quiet _ acts (by simp)]
      have hp : Link.perform { L with inbox := [] } (.lose c) =
          { L with server := (S.serve c L.server q).1,
                   done := L.done ++ [(q,(S.serve c L.server q).2)], waiting := [], inbox := [] } := by
        simp [Link.perform,answer_cons hc.last]
      rw [hp]
      have hi : Idle takes { L with server := (S.serve c L.server q).1,
                                    done := L.done ++ [(q,(S.serve c L.server q).2)], waiting := [],
                                    inbox := [] } := ⟨rfl,by simp⟩
      obtain ⟨hi',hs,hr,ho⟩ := hi.await hm acts
      exact ⟨hi',hs,hr,by simpa using ho⟩

/-- Such a wait ends without a reply, or with the one to `q`. -/
theorem Answered.cases {takes : Rep → Bool} {q : Req} {s : S.State} {done : List (Req × Rep)}
    {acts : List (Act S)} {R : Link S × List Rep × Outcome Rep}
    (h : Answered takes q s done acts R) : (∀ r, R.2.2 ≠ .got r) ∨ ∃ c,
      R.2.2 = .got (S.serve c s q).2 ∧ Idle takes R.1 ∧ R.1.server = (S.serve c s q).1 := by
  unfold Answered at h
  cases hv : served acts with
  | none =>
    rw [hv] at h
    exact .inl h.2.2.2
  | some v =>
    obtain ⟨c,arrives⟩ := v
    rw [hv] at h
    obtain ⟨hidle,hserver,-,hout⟩ := h
    split at hout
    · exact .inr ⟨c,hout,hidle,hserver⟩
    · exact .inl hout

/-- One exchange that starts with nothing outstanding. -/
theorem Idle.exchange {takes : Rep → Bool} (hm : Skips S takes) {L : Link S}
    (h : Idle takes L) (q : Req) :
    match L.sending with
    | none => Idle takes (exchange takes q L).1 ∧ (exchange takes q L).1.server = L.server ∧
        (exchange takes q L).1.done = L.done
    | some acts => Answered takes q L.server L.done acts (exchange takes q L) := by
  unfold sending Link.exchange
  cases henv : L.env with
  | nil => exact ⟨h,rfl,rfl⟩
  | cons d env =>
    have he : Idle takes { L with env := env } := ⟨h.settled,h.quiet⟩
    obtain ⟨hi,hs,hr⟩ := he.performAll hm d.before
    generalize hM : Link.performAll { L with env := env } d.before = M at hi hs hr
    cases hd : d.sent with
    | false => simpa [hd,hM] using ⟨hi,hs,hr⟩
    | true =>
      have hl : Lone takes q { M with waiting := M.waiting ++ [q] } := ⟨by simp [hi.settled],hi.quiet⟩
      simp only [hd,if_true,hM]
      rw [← hs,← hr]
      exact hl.await hm d.acts

/-- Afterwards nothing is queued that the client would take. -/
theorem Idle.exchange_quiet {takes : Rep → Bool} (hm : Skips S takes) {L : Link S}
    (h : Idle takes L) (q : Req) : ∀ r ∈ (Link.exchange takes q L).1.inbox, takes r = false := by
  have hx := h.exchange hm q
  cases hs : L.sending with
  | none =>
    rw [hs] at hx
    exact hx.1.quiet
  | some acts =>
    simp only [hs,Answered] at hx
    cases hv : served acts with
    | none =>
      rw [hv] at hx
      exact hx.1.quiet
    | some v =>
      rw [hv] at hx
      exact hx.1.quiet

/-- From nothing outstanding, the request is served once or not yet, and no reply but its own is
read. -/
theorem Idle.exchange_cases {takes : Rep → Bool} (hm : Skips S takes) {L : Link S}
    (h : Idle takes L) (q : Req) :
    (Link.exchange takes q L).1.server = L.server ∧ (Link.exchange takes q L).1.done = L.done ∧
        (∀ r, (Link.exchange takes q L).2.2 ≠ .got r) ∨
      ∃ c, (Link.exchange takes q L).1.server = (S.serve c L.server q).1 ∧
        (Link.exchange takes q L).1.done = L.done ++ [(q,(S.serve c L.server q).2)] ∧
        ∀ r, (Link.exchange takes q L).2.2 = .got r → r = (S.serve c L.server q).2 := by
  have hx := h.exchange hm q
  have hu := (exchange_sent takes q L).2
  cases hs : L.sending with
  | none =>
    simp only [hs] at hx hu
    exact .inl ⟨hx.2.1,hx.2.2,by simp [hu.2]⟩
  | some acts =>
    simp only [hs,Answered] at hx
    cases hv : served acts with
    | none =>
      simp only [hv] at hx
      exact .inl hx.2
    | some v =>
      obtain ⟨c,arrives⟩ := v
      simp only [hv] at hx
      obtain ⟨-,hserver,hdone,hout⟩ := hx
      refine .inr ⟨c,hserver,hdone,fun r hr => ?_⟩
      split at hout
      · rw [hout] at hr
        cases hr
        rfl
      · exact absurd hr (hout r)

section Vouched
variable {I : S.State → List (Req × Rep) → Prop} {H : Req → Prop} {P : Rep → Prop}
  {takes : Rep → Bool}

/-- Besides, every reply that is queued for the client satisfies `P`. -/
structure Vouched (I : S.State → List (Req × Rep) → Prop) (H : Req → Prop) (P : Rep → Prop)
    (takes : Rep → Bool) (L : Link S) : Prop extends Guarded I H L where
  queued : Queued P takes L

variable (hm : Skips S takes) (hk : Keeps S I H)
  (hP : ∀ c s done q, I s done → H q → P (S.serve c s q).2)
include hm hk hP

theorem Vouched.perform {L : Link S} (h : Vouched I H P takes L) (a : Act S) :
    Vouched I H P takes (L.perform a) := by
  have hans : ∀ c b, Queued P takes (L.answer c b) := by
    intro c b
    cases hw : L.waiting with
    | nil => rw [answer_nil hw]; exact h.queued
    | cons q qs =>
      rw [answer_cons hw]
      cases b with
      | false => exact h.queued
      | true => exact h.queued.snoc (fun _ => hP c _ _ q h.served (h.waiting q (by simp [hw]))) _ rfl
  refine ⟨h.toGuarded.perform hk a,?_⟩
  cases a with
  | serve c => exact hans c true
  | lose c => exact hans c false
  | message m => exact h.queued.snoc (fun ht => by rw [hm m] at ht; cases ht) _ rfl
  | error => exact h.queued

theorem Vouched.performAll {L : Link S} (h : Vouched I H P takes L) (acts : List (Act S)) :
    Vouched I H P takes (L.performAll acts) := by
  induction acts generalizing L with
  | nil => exact h
  | cons a acts ih => exact ih (h.perform hm hk hP a)

omit hm hk hP in
/-- Behind an older request, `q` goes on waiting. -/
theorem answer_push {L : Link S} (hw : L.waiting ≠ []) (c : S.Choice) (b : Bool) (q : Req) :
    Link.answer c b { L with waiting := L.waiting ++ [q] } =
      { L.answer c b with waiting := (L.answer c b).waiting ++ [q] } := by
  obtain ⟨x,old,hold⟩ := List.exists_cons_of_ne_nil hw
  rw [answer_cons hold,answer_cons (show L.waiting ++ [q] = x :: (old ++ [q]) by rw [hold]; rfl)]

/-- The wait behind some older requests ends with what one of them is answered, or with the reply to
`q`; and then nothing is outstanding any more. -/
theorem Vouched.await {L : Link S} (h : Vouched I H P takes L) (q : Req) (acts : List (Act S)) :
    (∀ r, (Link.await takes acts { L with waiting := L.waiting ++ [q] }).2.2 = .got r → P r) ∨
      ∃ c s done, I s done ∧
        (Link.await takes acts { L with waiting := L.waiting ++ [q] }).2.2 = .got (S.serve c s q).2 ∧
        Idle takes (Link.await takes acts { L with waiting := L.waiting ++ [q] }).1 ∧
        (Link.await takes acts { L with waiting := L.waiting ++ [q] }).1.server =
          (S.serve c s q).1 := by
  induction acts generalizing L with
  | nil =>
    left
    rcases inbox_cases takes L with hq | ⟨pre,r,rest,hin,hpre,hr⟩
    · rw [await_quiet_nil (L := { L with waiting := L.waiting ++ [q] }) hq]
      simp
    · rw [await_got (L := { L with waiting := L.waiting ++ [q] }) hin hpre hr]
      rintro x ⟨⟩
      exact h.queued _ (by simp [hin]) hr
  | cons a acts ih =>
    rcases inbox_cases takes L with hq | ⟨pre,r,rest,hin,hpre,hr⟩
    on_goal 2 =>
      left
      rw [await_got (L := { L with waiting := L.waiting ++ [q] }) hin hpre hr]
      rintro x ⟨⟩
      exact h.queued _ (by simp [hin]) hr
    by_cases hw : L.waiting = []
    · -- `q` is served next
      have hlone : Lone takes q { L with waiting := L.waiting ++ [q] } := ⟨by simp [hw],hq⟩
      rcases (hlone.await hm (a :: acts)).cases with hnone | ⟨c,hgot,hidle,hserver⟩
      · exact .inl fun r hr => absurd hr (hnone r)
      · exact .inr ⟨c,L.server,L.done,h.served,hgot,hidle,hserver⟩
    by_cases ha : a = .error
    · left
      rw [ha,await_quiet_error (L := { L with waiting := L.waiting ++ [q] }) hq]
      simp
    have hpush : Link.perform { L with waiting := L.waiting ++ [q], inbox := [] } a =
        { Link.perform { L with inbox := [] } a with
          waiting := (Link.perform { L with inbox := [] } a).waiting ++ [q] } := by
      cases a with
      | serve c => exact answer_push (L := { L with inbox := [] }) hw c true q
      | lose c => exact answer_push (L := { L with inbox := [] }) hw c false q
      | message m => rfl
      | error => rfl
    have hc : Vouched I H P takes { L with inbox := [] } :=
      ⟨⟨h.served,h.waiting⟩,fun r hr => by simp at hr⟩
    rw [await_cons (L := { L with waiting := L.waiting ++ [q] }) hq a acts ha,hpush]
    exact ih (hc.perform hm hk hP a)

/-- One exchange behind some older requests. -/
theorem Vouched.exchange {L : Link S} (h : Vouched I H P takes L) (q : Req) :
    (∀ r, (Link.exchange takes q L).2.2 = .got r → P r) ∨
      ∃ c s done, I s done ∧ (Link.exchange takes q L).2.2 = .got (S.serve c s q).2 ∧
        Idle takes (Link.exchange takes q L).1 ∧
        (Link.exchange takes q L).1.server = (S.serve c s q).1 := by
  unfold Link.exchange
  split
  · exact .inl fun r hr => by cases hr
  · rename_i d env _
    have he : Vouched I H P takes { L with env := env } := ⟨⟨h.served,h.waiting⟩,h.queued⟩
    have hb := he.performAll hm hk hP d.before
    dsimp only
    split
    · exact hb.await hm hk hP q d.acts
    · exact .inl fun r hr => by cases hr

end Vouched

/-- Every request that gets sent is served before the client stops waiting for it; its reply may
still get lost. -/
def Settles (env : List (Delivery S)) : Prop := ∀ d ∈ env, d.sent → (served d.acts).isSome

/-- Surroundings in which every request settles leave nothing outstanding. -/
theorem Idle.settle {takes : Rep → Bool} (hm : Skips S takes) {L : Link S} (h : Idle takes L)
    (hs : Settles L.env) (q : Req) :
    Idle takes (Link.exchange takes q L).1 ∧ Settles (Link.exchange takes q L).1.env := by
  have hx := h.exchange hm q
  rw [(exchange_sent takes q L).1]
  refine ⟨?_,fun d hd => hs d (List.mem_of_mem_tail hd)⟩
  unfold sending at hx
  cases henv : L.env with
  | nil => rw [henv] at hx; exact hx.1
  | cons d env =>
    rw [henv] at hx
    dsimp only at hx
    split at hx
    · exact hx.1
    · rename_i acts hacts
      split at hacts
      · rename_i hsent
        cases hacts
        have hserved := hs d (by simp [henv]) hsent
        simp only [Answered] at hx
        cases hv : served d.acts with
        | none => rw [hv] at hserved; cases hserved
        | some v => rw [hv] at hx; exact hx.1
      · cases hacts

/-- A run of exchanges whose requests all belong to a class. -/
inductive Sends (takes : Rep → Bool) (P : Req → Prop) (L : Link S) : Link S → Prop
  | refl : Sends takes P L L
  | step {M : Link S} {q : Req} (h : Sends takes P L M) (hq : P q) :
      Sends takes P L (Link.exchange takes q M).1

section Sends
variable {takes : Rep → Bool} {P : Req → Prop} {L M N : Link S}

theorem Sends.trans (h : Sends takes P L M) (h' : Sends takes P M N) : Sends takes P L N := by
  induction h' with
  | refl => exact h
  | step _ hq ih => exact ih.step hq

theorem Sends.sent (h : Sends takes P L M) : ∃ new, M.sent = L.sent ++ new ∧ ∀ q ∈ new, P q := by
  induction h with
  | refl => exact ⟨[],by simp,by simp⟩
  | step _ hq ih =>
    rename_i M q _
    obtain ⟨new,hnew,hall⟩ := ih
    have hx := (exchange_sent takes q M).2
    split at hx
    · exact ⟨new,hx.1.trans hnew,hall⟩
    · refine ⟨new ++ [q],by rw [hx.1,hnew,List.append_assoc],fun x hm => ?_⟩
      rcases List.mem_append.mp hm with hm | hm
      · exact hall x hm
      · rw [List.mem_singleton.mp hm]
        exact hq

theorem Sends.done (h : Sends takes P L M) : L.done <+: M.done := by
  induction h with
  | refl => exact List.prefix_rfl
  | step _ _ ih => exact ih.trans (exchange_done takes _ _)

/-- What serving the requests of a run keeps is kept by the run. -/
theorem Sends.guarded {I : S.State → List (Req × Rep) → Prop} {H : Req → Prop} (hk : Keeps S I H)
    (h : Sends takes P L M) (hP : ∀ q, P q → H q) (hg : Guarded I H L) : Guarded I H M := by
  induction h with
  | refl => exact hg
  | step _ hq ih => exact ih.exchange hk takes (hP _ hq)

/-- On a settled link it still holds after the server has served what was left. -/
theorem Sends.kept {I : S.State → List (Req × Rep) → Prop} {H : Req → Prop} (hk : Keeps S I H)
    (h : Sends takes P L M) (hP : ∀ q, P q → H q) (hw : L.waiting = []) (hI : I L.server L.done)
    (cs : List S.Choice) : I (M.drain cs).server (M.drain cs).done := by
  have hg : Guarded I H L := ⟨hI,by simp [hw]⟩
  exact ((h.guarded hk hP hg).drain hk cs).served

end Sends

/-- Without a further delivery nothing is sent. -/
theorem exchange_gone {takes : Rep → Bool} {L : Link S} (he : L.env = []) (q : Req) :
    Link.exchange takes q L = (L,[],.unsent) := by
  simp [Link.exchange,he]

/-- The request is sent, and a request is served by `c` while the client waits, whose reply
arrives. -/
def Answers (c : S.Choice) (d : Delivery S) : Prop := d.sent ∧ served d.acts = some (c,true)

theorem Idle.exchange_answered {takes : Rep → Bool} (hm : Skips S takes) {L : Link S}
    (h : Idle takes L) {c : S.Choice} {d : Delivery S} {env : List (Delivery S)}
    (he : L.env = d :: env) (hd : Answers c d) (q : Req) :
    Idle takes (Link.exchange takes q L).1 ∧ (Link.exchange takes q L).1.env = env ∧
      (Link.exchange takes q L).1.server = (S.serve c L.server q).1 ∧
      (Link.exchange takes q L).1.done = L.done ++ [(q,(S.serve c L.server q).2)] ∧
      (takes (S.serve c L.server q).2 →
        (Link.exchange takes q L).2.2 = .got (S.serve c L.server q).2) := by
  have hx := h.exchange hm q
  have henv := (exchange_sent takes q L).1
  rw [sending_of_env he,if_pos hd.1] at hx
  rw [he] at henv
  simp only [Answered,hd.2] at hx
  obtain ⟨hi,hs,hdone,ho⟩ := hx
  exact ⟨hi,henv,hs,hdone,fun ht => by simpa [ht] using ho⟩

/-- The surroundings in which a request is served at once and the reply arrives. -/
def atOnce (c : S.Choice) : Delivery S := ⟨[],true,[.serve c]⟩

theorem answers_atOnce (c : S.Choice) : Answers c (atOnce c) := ⟨rfl,rfl⟩

theorem Idle.exchange_atOnce {takes : Rep → Bool} (hm : Skips S takes) {L : Link S}
    (h : Idle takes L) {c : S.Choice} {env : List (Delivery S)} (he : L.env = atOnce c :: env)
    (q : Req) :
    Idle takes (Link.exchange takes q L).1 ∧ (Link.exchange takes q L).1.env = env ∧
      (Link.exchange takes q L).1.server = (S.serve c L.server q).1 ∧
      (Link.exchange takes q L).1.done = L.done ++ [(q,(S.serve c L.server q).2)] ∧
      (takes (S.serve c L.server q).2 →
        (Link.exchange takes q L).2.2 = .got (S.serve c L.server q).2) :=
  h.exchange_answered hm he (answers_atOnce c) q

/-- With one request outstanding, what the client gets is the reply to that one. -/
theorem Lone.exchange_atOnce {takes : Rep → Bool} {q₀ : Req} {L : Link S} (h : Lone takes q₀ L)
    {c : S.Choice} {env : List (Delivery S)} (he : L.env = atOnce c :: env)
    (ht : takes (S.serve c L.server q₀).2) (q : Req) :
    Lone takes q (Link.exchange takes q L).1 ∧ (Link.exchange takes q L).1.env = env ∧
      (Link.exchange takes q L).1.server = (S.serve c L.server q₀).1 ∧
      (Link.exchange takes q L).1.done = L.done ++ [(q₀,(S.serve c L.server q₀).2)] ∧
      (Link.exchange takes q L).2.2 = .got (S.serve c L.server q₀).2 := by
  have hx : Link.exchange takes q L =
      Link.await takes [.serve c] { L with env := env, waiting := L.waiting ++ [q] } := by
    unfold Link.exchange
    rw [he]
    rfl
  have hp : Link.perform { L with env := env, waiting := L.waiting ++ [q], inbox := [] } (.serve c) =
      { L with server := (S.serve c L.server q₀).1, env := env, waiting := [q],
               done := L.done ++ [(q₀,(S.serve c L.server q₀).2)],
               inbox := [(S.serve c L.server q₀).2] } := by
    rw [Link.perform,answer_cons (show L.waiting ++ [q] = q₀ :: [q] by rw [h.last]; rfl)]
    rfl
  rw [hx,await_cons (L := { L with env := env, waiting := L.waiting ++ [q] }) h.quiet _ _ (by simp),
    hp,await_got (List.nil_append _).symm (by simp) ht]
  exact ⟨⟨rfl,by simp⟩,rfl,rfl,rfl,rfl⟩

/-- Nothing is outstanding, and every further request is served in time, by a choice of the
class `C`. -/
structure Prompt (takes : Rep → Bool) (C : S.Choice → Prop) (L : Link S) : Prop where
  idle : Idle takes L
  answered : ∀ d ∈ L.env, ∃ c, C c ∧ Answers c d

section Prompt
variable {takes : Rep → Bool} (hm : Skips S takes) {C : S.Choice → Prop} {L : Link S}
include hm

theorem Prompt.exchange (h : Prompt takes C L) (q : Req) :
    Prompt takes C (Link.exchange takes q L).1 ∧ ((Link.exchange takes q L).1.done = L.done ∨
      ∃ c s, C c ∧ (Link.exchange takes q L).1.done = L.done ++ [(q,(S.serve c s q).2)]) := by
  cases he : L.env with
  | nil =>
    rw [exchange_gone he]
    exact ⟨h,.inl rfl⟩
  | cons d env =>
    obtain ⟨c,hc,hans⟩ := h.answered d (by simp [he])
    obtain ⟨hi,henv,-,hdone,-⟩ := h.idle.exchange_answered hm he hans q
    refine ⟨⟨hi,fun d hd => h.answered d ?_⟩,.inr ⟨c,_,hc,hdone⟩⟩
    rw [henv] at hd
    simp [he,hd]

/-- In such a run every reply is one that a choice of the class gives. -/
theorem Sends.prompt {P : Req → Prop} {M : Link S} (h : Sends takes P L M)
    (hp : Prompt takes C L) : Prompt takes C M ∧ ∃ new, M.done = L.done ++ new ∧
      ∀ p ∈ new, P p.1 ∧ ∃ c s, C c ∧ p.2 = (S.serve c s p.1).2 := by
  induction h with
  | refl => exact ⟨hp,[],by simp,by simp⟩
  | step _ hq ih =>
    rename_i M q _
    obtain ⟨hM,new,hnew,hall⟩ := ih
    obtain ⟨hM',hdone | ⟨c,s,hc,hdone⟩⟩ := hM.exchange hm q
    · exact ⟨hM',new,hdone.trans hnew,hall⟩
    · refine ⟨hM',new ++ [(q,(S.serve c s q).2)],by rw [hdone,hnew,List.append_assoc],fun p hp => ?_⟩
      rcases List.mem_append.mp hp with hp | hp
      · exact hall p hp
      · rw [List.mem_singleton.mp hp]
        exact ⟨hq,c,s,hc,rfl⟩

end Prompt

theorem drain_waiting (L : Link S) (cs : List S.Choice) :
    (L.drain cs).waiting = L.waiting.drop cs.length := by
  induction cs generalizing L with
  | nil => rfl
  | cons c cs ih =>
    change ((L.answer c true).drain cs).waiting = _
    rw [ih,answer_waiting,List.length_cons,List.drop_tail]

theorem drain_sent (L : Link S) (cs : List S.Choice) : (L.drain cs).sent = L.sent :=
  performAll_sent L _

/-- The request is sent, and nothing happens while the client waits. -/
theorem exchange_silent {takes : Rep → Bool} {L : Link S} {env : List (Delivery S)}
    (he : L.env = ⟨[],true,[]⟩ :: env) (hq : ∀ r ∈ L.inbox, takes r = false) (q : Req) :
    (Link.exchange takes q L).1.env = env ∧ (Link.exchange takes q L).1.inbox = [] ∧
      (Link.exchange takes q L).1.server = L.server ∧ (Link.exchange takes q L).1.done = L.done ∧
      (Link.exchange takes q L).1.waiting = L.waiting ++ [q] ∧
      (Link.exchange takes q L).2.2 = .silence := by
  have hx : Link.exchange takes q L = await takes [] { L with env := env, waiting := L.waiting ++ [q] } := by
    unfold Link.exchange
    rw [he]
    rfl
  rw [hx,await_quiet_nil (L := { L with env := env, waiting := L.waiting ++ [q] }) hq]
  exact ⟨rfl,rfl,rfl,rfl,rfl,rfl⟩

end Link
end Exchange
