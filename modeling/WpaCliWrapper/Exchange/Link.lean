import Mathlib.Data.List.Infix
import Mathlib.Data.List.TakeWhile

/-! A client and a server that exchange datagrams over two first-in first-out queues. The
server answers every request once and in order, at any time; it may also post messages that
nobody asked for. Requests and replies carry no identifier. -/
namespace Exchange

/-- The server side: how it serves a request in a given state, under a choice that the
environment makes, and which datagram a posted message becomes. -/
structure Server (Req Rep : Type) where
  State : Type
  Choice : Type
  Message : Type
  serve : Choice → State → Req → State × Rep
  post : Message → Rep

variable {Req Rep : Type}

/-- What can happen while the client is not looking at its socket. -/
inductive Act (S : Server Req Rep)
  | serve (c : S.Choice)
  | lose (c : S.Choice)
  | message (m : S.Message)
  | error

/-- The surroundings of one request: what happens before it is sent, whether sending works,
and what happens, one thing after the other, while the client waits. The list of acts ends
when nothing more happens for as long as the client is ready to wait. -/
structure Delivery (S : Server Req Rep) where
  before : List (Act S)
  sent : Bool
  acts : List (Act S)

/-- Both queues. The requests that are served are kept with the reply of each, in order; so every
request ever sent is either served or still waiting, and no reply is without its request. -/
structure Link (S : Server Req Rep) where
  server : S.State
  done : List (Req × Rep)
  waiting : List Req
  inbox : List Rep
  env : List (Delivery S)

inductive Outcome (Rep : Type)
  | unsent
  | failed
  | silence
  | got (r : Rep)

namespace Link

variable {S : Server Req Rep}

/-- All requests sent so far, oldest first. -/
def sent (L : Link S) : List Req := L.done.map Prod.fst ++ L.waiting

/-- The server takes the oldest waiting request and gives its reply. -/
def answer (c : S.Choice) (arrives : Bool) (L : Link S) : Link S :=
  match L.waiting with
  | [] => L
  | q :: waiting =>
    let r := S.serve c L.server q
    { L with server := r.1, done := L.done ++ [(q,r.2)], waiting := waiting,
             inbox := if arrives then L.inbox ++ [r.2] else L.inbox }

def perform (L : Link S) : Act S → Link S
  | .serve c => L.answer c true
  | .lose c => L.answer c false
  | .message m => { L with inbox := L.inbox ++ [S.post m] }
  | .error => L

def performAll (L : Link S) (acts : List (Act S)) : Link S := acts.foldl perform L

/-- The client reads datagrams until one is a reply to it, skipping the others; whenever its
queue is empty it waits for the next act. An act that happens while something is still queued
has the same effect as the same act after it was read. -/
def await (takes : Rep → Bool) : List (Act S) → Link S → Link S × List Rep × Outcome Rep
  | acts, L =>
    match L.inbox.dropWhile (!takes ·) with
    | r :: rest => ({ L with inbox := rest }, L.inbox.takeWhile (!takes ·), .got r)
    | [] =>
      match acts with
      | [] => ({ L with inbox := [] }, L.inbox, .silence)
      | .error :: _ => ({ L with inbox := [] }, L.inbox, .failed)
      | a :: as =>
        let r := await takes as ({ L with inbox := [] }.perform a)
        (r.1, L.inbox ++ r.2.1, r.2.2)

/-- Send one request and wait. Without a further delivery the server is gone. -/
def exchange (takes : Rep → Bool) (q : Req) (L : Link S) : Link S × List Rep × Outcome Rep :=
  match L.env with
  | [] => (L, [], .unsent)
  | d :: env =>
    let M := { L with env := env }.performAll d.before
    if d.sent then await takes d.acts { M with waiting := M.waiting ++ [q] } else (M, [], .unsent)

/-- The acts the client waits through, if the next request can be sent at all. -/
def sending (L : Link S) : Option (List (Act S)) :=
  match L.env with
  | [] => none
  | d :: _ => if d.sent then some d.acts else none

theorem sending_of_env {L : Link S} {d : Delivery S} {env : List (Delivery S)}
    (h : L.env = d :: env) : L.sending = if d.sent then some d.acts else none := by
  rw [sending,h]

/-- The server goes on serving the waiting requests, one for each choice. -/
def drain (cs : List S.Choice) (L : Link S) : Link S := L.performAll (cs.map .serve)

theorem answer_nil {L : Link S} (h : L.waiting = []) (c : S.Choice) (b : Bool) :
    L.answer c b = L := by simp [answer,h]

theorem answer_cons {L : Link S} {q : Req} {qs : List Req} (h : L.waiting = q :: qs)
    (c : S.Choice) (b : Bool) :
    L.answer c b = { L with server := (S.serve c L.server q).1,
                            done := L.done ++ [(q,(S.serve c L.server q).2)], waiting := qs,
                            inbox := if b then L.inbox ++ [(S.serve c L.server q).2] else L.inbox } := by
  simp [answer,h]

@[simp] theorem answer_sent (L : Link S) (c : S.Choice) (b : Bool) :
    (L.answer c b).sent = L.sent := by
  cases h : L.waiting with
  | nil => rw [answer_nil h]
  | cons q qs => simp [answer_cons h,sent,h]

@[simp] theorem answer_env (L : Link S) (c : S.Choice) (b : Bool) :
    (L.answer c b).env = L.env := by
  unfold answer
  split <;> rfl

theorem answer_waiting (L : Link S) (c : S.Choice) (b : Bool) :
    (L.answer c b).waiting = L.waiting.tail := by
  cases h : L.waiting with
  | nil => rw [answer_nil h,h]; rfl
  | cons q qs => rw [answer_cons h]; rfl

@[simp] theorem perform_sent (L : Link S) (a : Act S) : (L.perform a).sent = L.sent := by
  cases a with
  | serve c => exact answer_sent L c true
  | lose c => exact answer_sent L c false
  | message m => rfl
  | error => rfl

@[simp] theorem perform_env (L : Link S) (a : Act S) : (L.perform a).env = L.env := by
  cases a <;> simp [perform]

@[simp] theorem performAll_sent (L : Link S) (acts : List (Act S)) :
    (L.performAll acts).sent = L.sent := by
  induction acts generalizing L with
  | nil => rfl
  | cons a acts ih => exact (ih (L.perform a)).trans (perform_sent L a)

@[simp] theorem performAll_env (L : Link S) (acts : List (Act S)) :
    (L.performAll acts).env = L.env := by
  induction acts generalizing L with
  | nil => rfl
  | cons a acts ih => exact (ih (L.perform a)).trans (perform_env L a)

/-- One step of waiting, when nothing is queued for the client. -/
theorem await_cons {takes : Rep → Bool} {L : Link S} (h : ∀ r ∈ L.inbox, takes r = false)
    (a : Act S) (as : List (Act S)) (ha : a ≠ .error) :
    await takes (a :: as) L =
      ((await takes as ({ L with inbox := [] }.perform a)).1,
        L.inbox ++ (await takes as ({ L with inbox := [] }.perform a)).2.1,
        (await takes as ({ L with inbox := [] }.perform a)).2.2) := by
  have hd : L.inbox.dropWhile (!takes ·) = [] := by
    rw [List.dropWhile_eq_nil_iff]
    intro r hr
    simp [h r hr]
  rw [await,hd]
  cases a <;> simp_all

theorem await_quiet_nil {takes : Rep → Bool} {L : Link S} (h : ∀ r ∈ L.inbox, takes r = false) :
    await takes [] L = ({ L with inbox := [] }, L.inbox, .silence) := by
  have hd : L.inbox.dropWhile (!takes ·) = [] := by
    rw [List.dropWhile_eq_nil_iff]
    intro r hr
    simp [h r hr]
  rw [await,hd]

theorem await_quiet_error {takes : Rep → Bool} {L : Link S} (h : ∀ r ∈ L.inbox, takes r = false)
    (as : List (Act S)) :
    await takes (.error :: as) L = ({ L with inbox := [] }, L.inbox, .failed) := by
  have hd : L.inbox.dropWhile (!takes ·) = [] := by
    rw [List.dropWhile_eq_nil_iff]
    intro r hr
    simp [h r hr]
  rw [await,hd]

/-- The first queued datagram that the client takes ends the wait. -/
theorem await_got {takes : Rep → Bool} {L : Link S} {pre rest : List Rep} {r : Rep}
    (h : L.inbox = pre ++ r :: rest) (hpre : ∀ x ∈ pre, takes x = false) (hr : takes r)
    (acts : List (Act S)) :
    await takes acts L = ({ L with inbox := rest }, pre, .got r) := by
  have hp : ∀ x ∈ pre, (!takes x) = true := fun x hx => by simp [hpre x hx]
  rw [await.eq_def]
  simp only [h]
  rw [List.dropWhile_append_of_pos hp,List.dropWhile_cons_of_neg (by simp [hr]),
    List.takeWhile_append_of_pos hp,List.takeWhile_cons_of_neg (by simp [hr]),List.append_nil]

/-- Either the client would skip the whole queue, or there is a first datagram it takes. -/
theorem inbox_cases (takes : Rep → Bool) (L : Link S) :
    (∀ r ∈ L.inbox, takes r = false) ∨
      ∃ pre r rest, L.inbox = pre ++ r :: rest ∧ (∀ x ∈ pre, takes x = false) ∧ takes r := by
  cases hd : L.inbox.dropWhile (!takes ·) with
  | nil =>
    left
    intro r hr
    simpa using List.dropWhile_eq_nil_iff.mp hd r hr
  | cons r rest =>
    right
    refine ⟨L.inbox.takeWhile (!takes ·),r,rest,?_,fun x hx => ?_,?_⟩
    · rw [← hd,List.takeWhile_append_dropWhile]
    · simpa using List.mem_takeWhile_imp hx
    · have hn := List.head_dropWhile_not (!takes ·) (l := L.inbox) (by simp [hd])
      simpa [hd] using hn

theorem await_sent (takes : Rep → Bool) (acts : List (Act S)) (L : Link S) :
    (await takes acts L).1.env = L.env ∧ (await takes acts L).1.sent = L.sent ∧
      (await takes acts L).2.2 ≠ .unsent := by
  induction acts generalizing L with
  | nil =>
    rcases inbox_cases takes L with hq | ⟨pre,r,rest,hin,hpre,hr⟩
    · rw [await_quiet_nil hq]; exact ⟨rfl,rfl,by simp⟩
    · rw [await_got hin hpre hr]; exact ⟨rfl,rfl,by simp⟩
  | cons a acts ih =>
    rcases inbox_cases takes L with hq | ⟨pre,r,rest,hin,hpre,hr⟩
    · by_cases ha : a = .error
      · rw [ha,await_quiet_error hq]; exact ⟨rfl,rfl,by simp⟩
      · rw [await_cons hq a acts ha]
        obtain ⟨h1,h2,h3⟩ := ih (Link.perform { L with inbox := [] } a)
        exact ⟨h1.trans (perform_env _ a),h2.trans (perform_sent _ a),h3⟩
    · rw [await_got hin hpre hr]; exact ⟨rfl,rfl,by simp⟩

theorem await_takes {takes : Rep → Bool} {acts : List (Act S)} {L : Link S} {r : Rep}
    (h : (await takes acts L).2.2 = .got r) : takes r := by
  induction acts generalizing L with
  | nil =>
    rcases inbox_cases takes L with hq | ⟨pre,x,rest,hin,hpre,hx⟩
    · rw [await_quiet_nil hq] at h; cases h
    · rw [await_got hin hpre hx] at h; cases h; exact hx
  | cons a acts ih =>
    rcases inbox_cases takes L with hq | ⟨pre,x,rest,hin,hpre,hx⟩
    · by_cases ha : a = .error
      · rw [ha,await_quiet_error hq] at h; cases h
      · rw [await_cons hq a acts ha] at h; exact ih h
    · rw [await_got hin hpre hx] at h; cases h; exact hx

theorem exchange_takes {takes : Rep → Bool} {q : Req} {L : Link S} {r : Rep}
    (h : (exchange takes q L).2.2 = .got r) : takes r := by
  unfold exchange at h
  split at h
  · cases h
  · dsimp only at h
    split at h
    · exact await_takes h
    · cases h

/-- An exchange sends its request or nothing, and uses up one delivery. -/
theorem exchange_sent (takes : Rep → Bool) (q : Req) (L : Link S) :
    (exchange takes q L).1.env = L.env.tail ∧
    match L.sending with
    | none => (exchange takes q L).1.sent = L.sent ∧ (exchange takes q L).2.2 = .unsent
    | some _ => (exchange takes q L).1.sent = L.sent ++ [q] ∧ (exchange takes q L).2.2 ≠ .unsent := by
  unfold exchange sending
  cases henv : L.env with
  | nil => simp [henv]
  | cons d env =>
    cases hd : d.sent with
    | false => simp [hd]; rfl
    | true =>
      generalize hM : Link.performAll { L with env := env } d.before = M
      have hs : M.sent = L.sent := by rw [← hM,performAll_sent]; rfl
      have he : M.env = env := by rw [← hM,performAll_env]
      obtain ⟨h1,h2,h3⟩ := await_sent takes d.acts { M with waiting := M.waiting ++ [q] }
      simp only [hd,if_true,hM]
      refine ⟨h1.trans he,h2.trans ?_,h3⟩
      rw [← hs]
      simp [sent]

theorem answer_done (L : Link S) (c : S.Choice) (b : Bool) : L.done <+: (L.answer c b).done := by
  cases h : L.waiting with
  | nil => rw [answer_nil h]
  | cons q qs => rw [answer_cons h]; exact List.prefix_append _ _

theorem perform_done (L : Link S) (a : Act S) : L.done <+: (L.perform a).done := by
  cases a with
  | serve c => exact answer_done L c true
  | lose c => exact answer_done L c false
  | message m => exact List.prefix_rfl
  | error => exact List.prefix_rfl

theorem performAll_done (L : Link S) (acts : List (Act S)) : L.done <+: (L.performAll acts).done := by
  induction acts generalizing L with
  | nil => exact List.prefix_rfl
  | cons a acts ih => exact (perform_done L a).trans (ih (L.perform a))

theorem await_done (takes : Rep → Bool) (acts : List (Act S)) (L : Link S) :
    L.done <+: (await takes acts L).1.done := by
  induction acts generalizing L with
  | nil =>
    rcases inbox_cases takes L with hq | ⟨pre,r,rest,hin,hpre,hr⟩
    · rw [await_quiet_nil hq]
    · rw [await_got hin hpre hr]
  | cons a acts ih =>
    rcases inbox_cases takes L with hq | ⟨pre,r,rest,hin,hpre,hr⟩
    · by_cases ha : a = .error
      · rw [ha,await_quiet_error hq]
      · rw [await_cons hq a acts ha]
        exact (perform_done { L with inbox := [] } a).trans (ih _)
    · rw [await_got hin hpre hr]

/-- What was served stays served, with the same reply. -/
theorem exchange_done (takes : Rep → Bool) (q : Req) (L : Link S) :
    L.done <+: (exchange takes q L).1.done := by
  unfold exchange
  split
  · exact List.prefix_rfl
  · rename_i d env _
    have hb := performAll_done { L with env := env } d.before
    dsimp only
    split
    · exact hb.trans (await_done takes d.acts
        { Link.performAll { L with env := env } d.before with
          waiting := (Link.performAll { L with env := env } d.before).waiting ++ [q] })
    · exact hb

theorem done_length_le (L : Link S) : L.done.length ≤ L.sent.length := by simp [sent]

/-- The surroundings in which the server answers the oldest waiting request, and nothing else
happens. -/
def promptly (c : S.Choice) : List (Delivery S) := [⟨[],true,[.serve c]⟩]

/-- One prompt answer ends the wait, but it need not be the answer to the request just sent. -/
theorem exchange_promptly (takes : Rep → Bool) (q : Req) {L : Link S} {c : S.Choice}
    (he : L.env = promptly c) (ht : ∀ s q, takes (S.serve c s q).2) :
    ∃ r, (exchange takes q L).2.2 = .got r ∧ (exchange takes q L).1.env = [] ∧
      (((∃ x ∈ L.inbox, takes x) ∧ (exchange takes q L).1.done = L.done) ∨
        (∀ x ∈ L.inbox, takes x = false) ∧ ∃ old rest, L.waiting ++ [q] = old :: rest ∧
          (exchange takes q L).1.done = L.done ++ [(old,r)] ∧ r = (S.serve c L.server old).2) := by
  have hx : exchange takes q L =
      await takes [.serve c] { L with env := [], waiting := L.waiting ++ [q] } := by
    unfold exchange
    rw [he]
    rfl
  rw [hx]
  obtain ⟨old,rest,hw⟩ := List.exists_cons_of_ne_nil (show L.waiting ++ [q] ≠ [] by simp)
  rcases inbox_cases takes L with hq | ⟨pre,r,rest',hin,hpre,hr⟩
  · have hp : Link.perform { L with env := [], waiting := L.waiting ++ [q], inbox := [] } (.serve c) =
        { L with server := (S.serve c L.server old).1, env := [], waiting := rest,
                 done := L.done ++ [(old,(S.serve c L.server old).2)],
                 inbox := [(S.serve c L.server old).2] } := by
      rw [perform,answer_cons hw]
      simp
    rw [await_cons (L := { L with env := [], waiting := L.waiting ++ [q] }) hq _ _ (by simp),hp,
      await_got (List.nil_append _).symm (by simp) (ht _ _)]
    exact ⟨_,rfl,rfl,.inr ⟨hq,old,rest,hw,rfl,rfl⟩⟩
  · rw [await_got (L := { L with env := [], waiting := L.waiting ++ [q] }) hin hpre hr]
    exact ⟨r,rfl,rfl,.inl ⟨⟨r,by simp [hin],hr⟩,rfl⟩⟩

/-- A posted message that the client takes for a reply ends the wait, and nothing is served. -/
theorem exchange_mistaken (takes : Rep → Bool) (q : Req) {L : Link S} {m : S.Message}
    (he : L.env = [⟨[],true,[.message m]⟩]) (ht : takes (S.post m)) :
    ∃ r, (exchange takes q L).2.2 = .got r ∧ (exchange takes q L).1.env = [] ∧
      (exchange takes q L).1.done = L.done := by
  have hx : exchange takes q L =
      await takes [.message m] { L with env := [], waiting := L.waiting ++ [q] } := by
    unfold exchange
    rw [he]
    rfl
  rw [hx]
  rcases inbox_cases takes L with hq | ⟨pre,r,rest,hin,hpre,hr⟩
  · rw [await_cons (L := { L with env := [], waiting := L.waiting ++ [q] }) hq _ _ (by simp)]
    rw [await_got (L := perform { L with env := [], waiting := L.waiting ++ [q], inbox := [] }
      (.message m)) (List.nil_append _).symm (by simp) ht]
    exact ⟨_,rfl,rfl,rfl⟩
  · rw [await_got (L := { L with env := [], waiting := L.waiting ++ [q] }) hin hpre hr]
    exact ⟨_,rfl,rfl,rfl⟩

theorem perform_inbox (L : Link S) (a : Act S) : L.inbox <+: (L.perform a).inbox := by
  have hans : ∀ c b, L.inbox <+: (L.answer c b).inbox := by
    intro c b
    cases h : L.waiting with
    | nil => rw [answer_nil h]
    | cons q qs =>
      rw [answer_cons h]
      cases b with
      | false => exact List.prefix_rfl
      | true => exact List.prefix_append _ _
  cases a with
  | serve c => exact hans c true
  | lose c => exact hans c false
  | message m => exact List.prefix_append _ _
  | error => exact List.prefix_rfl

theorem performAll_inbox (L : Link S) (acts : List (Act S)) :
    L.inbox <+: (L.performAll acts).inbox := by
  induction acts generalizing L with
  | nil => exact List.prefix_rfl
  | cons a acts ih => exact (perform_inbox L a).trans (ih (L.perform a))

/-- A client that already has something to take gets a reply at once. -/
theorem exchange_queued (takes : Rep → Bool) (q : Req) {L : Link S}
    (h : ∃ r ∈ L.inbox, takes r) (hs : L.sending.isSome) :
    ∃ r, (exchange takes q L).2.2 = .got r := by
  obtain ⟨r,hr,ht⟩ := h
  unfold sending at hs
  unfold exchange
  cases henv : L.env with
  | nil => rw [henv] at hs; cases hs
  | cons d env =>
    rw [henv] at hs
    dsimp only at hs ⊢
    split at hs
    · rename_i hd
      rw [if_pos hd]
      generalize hM : Link.performAll { L with env := env } d.before = M
      have hin : r ∈ M.inbox := hM ▸ (performAll_inbox { L with env := env } d.before).subset hr
      rcases inbox_cases takes { M with waiting := M.waiting ++ [q] } with hq | ⟨pre,x,rest,hx,hpre,hx'⟩
      · rw [hq r hin] at ht
        cases ht
      · rw [await_got hx hpre hx']
        exact ⟨x,rfl⟩
    · cases hs

/-- A posted message that the client skips does not end its wait. -/
theorem exchange_skipped {takes : Rep → Bool} (q : Req) {L : Link S} {m : S.Message}
    (he : L.env = [⟨[],true,[.message m]⟩]) (hq : ∀ r ∈ L.inbox, takes r = false)
    (ht : takes (S.post m) = false) : (exchange takes q L).2.2 = .silence := by
  have hx : exchange takes q L =
      await takes [.message m] { L with env := [], waiting := L.waiting ++ [q] } := by
    unfold exchange
    rw [he]
    rfl
  rw [hx,await_cons (L := { L with env := [], waiting := L.waiting ++ [q] }) hq _ _ (by simp)]
  rw [await_quiet_nil (L := perform { L with env := [], waiting := L.waiting ++ [q], inbox := [] }
    (.message m)) (by simpa [perform] using ht)]

end Link
end Exchange
