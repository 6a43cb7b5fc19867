import SomeIPRuntime.ReplyMatching

set_option autoImplicit false

namespace SomeIPRuntime.AsyncAnswers

def ForProxy (message : VsomeipMessage) : Prop :=
  message.messageType ≠ .request ∧ message.messageType ≠ .requestNoReturn

def IsReply (message : VsomeipMessage) : Prop := message.messageType = .response ∨ message.messageType = .error

/-- `P` holds of all messages that the connection has: what is in the queue or in the hands of a
    thread is for a proxy, and what a call ends with is a reply. -/
structure Passes (P : VsomeipMessage → Prop) (s : State) : Prop where
  arriving : ∀ message ∈ s.arriving, P message.message
  queue : ∀ message ∈ s.queue, P message.message ∧ ForProxy message.message
  handling : ∀ message ∈ s.handling, P message.message ∧ ForProxy message.message
  toPush : ∀ worker ∈ s.workers, ∀ message ∈ worker.toPush, P message.message ∧ ForProxy message.message
  answers : ∀ y ∈ s.sendAndBlockAnswers.entries, ∀ message ∈ y.2, P message.message ∧ IsReply message.message
  invoked : ∀ invocation ∈ s.invoked, P invocation.message.message ∧ IsReply invocation.message.message
  returned : ∀ returned ∈ s.returned, ∀ message ∈ returned.answer, P message.message ∧ IsReply message.message

section Messages
variable {P : VsomeipMessage → Prop} {s t : State}

theorem initial_passes : Passes P initial where
  arriving _ h := by cases h
  queue _ h := by cases h
  handling _ h := by cases h
  toPush _ h := by cases h
  answers _ h := by cases h
  invoked _ h := by cases h
  returned _ h := by cases h

theorem isReply_error {message : VsomeipMessage} (h : message.messageType = .error) : IsReply message := Or.inr h

theorem IsReply.forProxy {message : VsomeipMessage} (h : IsReply message) : ForProxy message := by
  unfold ForProxy
  rcases h with h | h <;> rw [h] <;> exact ⟨by decide, by decide⟩

theorem ForProxy.isReply {message : VsomeipMessage} (h : ForProxy message)
    (hevent : message.messageType ≠ .notification) : IsReply message := by
  cases htype : message.messageType with
  | request => exact absurd htype h.1
  | requestNoReturn => exact absurd htype h.2
  | notification => exact absurd htype hevent
  | response => exact Or.inl htype
  | error => exact Or.inr htype

theorem Passes.store (h : Passes P s) (key : FakeSessionId) (entry : Entry) (timeout : ℤ) :
    Passes P (store key entry timeout s) :=
  ⟨h.arriving, h.queue, h.handling, h.toPush, h.answers, h.invoked, h.returned⟩

theorem Passes.send (h : Passes P s) (message : MessageObject) (session : Option SessionId) :
    Passes P (send message session s).2 := by
  cases session with
  | none => exact h
  | some session => exact ⟨h.arriving, h.queue, h.handling, h.toPush, h.answers, h.invoked, h.returned⟩

theorem Passes.sendMessageWithReplyAsync (h : Passes P s) (timeoutWarnThreshold : Option ℤ)
    (message : MessageObject) (handler : ℕ) (timeout : ℤ) (isConnected : Bool) (session : Option SessionId) :
    Passes P (sendMessageWithReplyAsync timeoutWarnThreshold message handler timeout isConnected session s).2 := by
  have hsend := h.send message session
  unfold AsyncAnswers.sendMessageWithReplyAsync
  cases isConnected with
  | false => exact h
  | true =>
    dsimp only
    rw [if_neg (by decide)]
    split
    · exact hsend
    · exact ⟨hsend.arriving, hsend.queue, hsend.handling, hsend.toPush, hsend.answers, hsend.invoked, hsend.returned⟩

theorem Passes.proxyPushMessageToMainLoop (h : Passes P s) {message : MessageObject} (hmessage : P message.message)
    (handler : ℕ) : Passes P (proxyPushMessageToMainLoop message handler s) := by
  have harriving : ∀ other ∈ s.arriving ++ [message], P other.message := by
    intro other hother
    rcases List.mem_append.1 hother with hother | hother
    · exact h.arriving other hother
    · rw [List.mem_singleton.1 hother]
      exact hmessage
  unfold AsyncAnswers.proxyPushMessageToMainLoop
  dsimp only
  split <;> exact ⟨harriving, h.queue, h.handling, h.toPush, h.answers, h.invoked, h.returned⟩

theorem Passes.callMethodAsync (h : Passes P s) (timeoutWarnThreshold : Option ℤ) (message : VsomeipMessage)
    (isAvailable : Bool) (timeout : ℤ) (isConnected : Bool) (session : Option SessionId) :
    Passes P (callMethodAsync timeoutWarnThreshold message isAvailable timeout isConnected session s) := by
  have hcall : Passes P { s with objects := s.objects + 1, handlers := s.handlers + 1 } :=
    ⟨h.arriving, h.queue, h.handling, h.toPush, h.answers, h.invoked, h.returned⟩
  unfold AsyncAnswers.callMethodAsync
  dsimp only
  split
  · exact hcall.sendMessageWithReplyAsync _ _ _ _ _ _
  · exact ⟨h.arriving, h.queue, h.handling, h.toPush, h.answers, h.invoked, h.returned⟩

theorem Passes.availabilityCallback (h : Passes P s) (herror : ∀ message : VsomeipMessage, message.messageType = .error → P message)
    (timeoutWarnThreshold : Option ℤ) (waiting : Waiting) (isAvailable : Bool) (remaining : ℤ) (isConnected : Bool)
    (session : Option SessionId) :
    Passes P (availabilityCallback timeoutWarnThreshold waiting isAvailable remaining isConnected session s) := by
  have hcreated : Passes P { s with objects := s.objects + 1 } :=
    ⟨h.arriving, h.queue, h.handling, h.toPush, h.answers, h.invoked, h.returned⟩
  unfold AsyncAnswers.availabilityCallback
  split
  · exact h.sendMessageWithReplyAsync _ _ _ _ _ _
  · apply hcreated.proxyPushMessageToMainLoop
    exact herror _ rfl

theorem Passes.startBlocking (h : Passes P s) (message : VsomeipMessage) (timeout : ℤ) (isConnected : Bool)
    (session : Option SessionId) (isAvailable : Bool) :
    Passes P (startBlocking message timeout isConnected session isAvailable s) := by
  have hcreated : Passes P { s with objects := s.objects + 1 } :=
    ⟨h.arriving, h.queue, h.handling, h.toPush, h.answers, h.invoked, h.returned⟩
  have hsend := hcreated.send ⟨s.objects, none, message⟩ session
  have hnothing : ∀ answer ∈ (none : Option MessageObject), P answer.message ∧ IsReply answer.message :=
    fun _ hanswer => by cases hanswer
  unfold AsyncAnswers.startBlocking
  dsimp only
  split
  · exact ⟨h.arriving, h.queue, h.handling, h.toPush, h.answers, h.invoked,
      List.forall_mem_append.2 ⟨h.returned, List.forall_mem_singleton.2 hnothing⟩⟩
  · split
    · exact ⟨hsend.arriving, hsend.queue, hsend.handling, hsend.toPush, hsend.answers, hsend.invoked,
        List.forall_mem_append.2 ⟨hsend.returned, List.forall_mem_singleton.2 hnothing⟩⟩
    · split
      · exact ⟨hsend.arriving, hsend.queue, hsend.handling, hsend.toPush, hsend.answers, hsend.invoked,
          List.forall_mem_append.2 ⟨hsend.returned, List.forall_mem_singleton.2 hnothing⟩⟩
      · refine ⟨hsend.arriving, hsend.queue, hsend.handling, hsend.toPush, fun y hy => ?_, hsend.invoked,
          hsend.returned⟩
        rcases Tables.mem_insert_entries hy with rfl | hy
        · exact hnothing
        · exact hsend.answers y hy

theorem Passes.finishBlocking (h : Passes P s) (i : ℕ) (blocked : Blocked) : Passes P (finishBlocking i blocked s) := by
  have hanswer : ∀ message ∈ (s.sendAndBlockAnswers.lookup (fake blocked.session)).join,
      P message.message ∧ IsReply message.message := by
    intro message hmessage
    rcases Option.join_eq_some_iff.1 hmessage with hlookup
    exact h.answers _ (Tables.mem_of_lookup hlookup) message rfl
  exact ⟨h.arriving, h.queue, h.handling, h.toPush, fun y hy => h.answers y (Tables.mem_of_mem_erase hy), h.invoked,
    List.forall_mem_append.2 ⟨h.returned, List.forall_mem_singleton.2 hanswer⟩⟩

theorem Passes.receive (h : Passes P s) {message : MessageObject} (hmessage : P message.message) (mainLoop : Bool) :
    Passes P (receive message mainLoop s) := by
  have hqueue : ForProxy message.message → Passes P { s with queue := s.queue ++ [message] } := fun hproxy =>
    ⟨h.arriving, List.forall_mem_append.2 ⟨h.queue, List.forall_mem_singleton.2 ⟨hmessage, hproxy⟩⟩, h.handling,
      h.toPush, h.answers, h.invoked, h.returned⟩
  have hhandling : ForProxy message.message → Passes P { s with handling := s.handling ++ [message] } := fun hproxy =>
    ⟨h.arriving, h.queue, List.forall_mem_append.2 ⟨h.handling, List.forall_mem_singleton.2 ⟨hmessage, hproxy⟩⟩,
      h.toPush, h.answers, h.invoked, h.returned⟩
  unfold AsyncAnswers.receive
  cases htype : message.message.messageType with
  | request => exact h
  | requestNoReturn => exact h
  | notification =>
    have hproxy : ForProxy message.message := by
      unfold ForProxy
      rw [htype]
      decide
    dsimp only
    split
    · exact hqueue hproxy
    · exact hhandling hproxy
  | response =>
    have hproxy : ForProxy message.message := IsReply.forProxy (Or.inl htype)
    dsimp only
    split
    · exact hqueue hproxy
    · exact hhandling hproxy
  | error =>
    have hproxy : ForProxy message.message := IsReply.forProxy (Or.inr htype)
    dsimp only
    split
    · exact hqueue hproxy
    · exact hhandling hproxy

theorem Passes.sessionOf (h : Passes P s) (message : MessageObject) : Passes P (sessionOf message s).2 := by
  unfold AsyncAnswers.sessionOf
  split
  · split
    · exact ⟨h.arriving, h.queue, h.handling, h.toPush, h.answers, h.invoked, h.returned⟩
    · exact h
  · exact h

theorem Passes.handleProxyReceive (h : Passes P s) {message : MessageObject} (hmessage : P message.message)
    (hproxy : ForProxy message.message) : Passes P (handleProxyReceive message s) := by
  have hsession := h.sessionOf message
  unfold AsyncAnswers.handleProxyReceive
  dsimp only
  split
  · exact hsession
  · rename_i hevent
    have hreply := hproxy.isReply hevent
    have hinvoked : ∀ handler callStatus, ∀ invocation ∈ (AsyncAnswers.sessionOf message s).2.invoked ++
        [⟨handler, callStatus, message⟩], P invocation.message.message ∧ IsReply invocation.message.message :=
      fun handler callStatus =>
        List.forall_mem_append.2 ⟨hsession.invoked, List.forall_mem_singleton.2 ⟨hmessage, hreply⟩⟩
    split
    · refine ⟨hsession.arriving, hsession.queue, hsession.handling, hsession.toPush, fun y hy => ?_,
        hsession.invoked, hsession.returned⟩
      rcases Tables.mem_insert_entries hy with rfl | hy
      · intro answer hanswer
        cases hanswer
        exact ⟨hmessage, hreply⟩
      · exact hsession.answers y hy
    · split
      · exact ⟨hsession.arriving, hsession.queue, hsession.handling, hsession.toPush, hsession.answers,
          hinvoked _ _, hsession.returned⟩
      · split
        · exact ⟨hsession.arriving, hsession.queue, hsession.handling, hsession.toPush, hsession.answers,
            hinvoked _ _, hsession.returned⟩
        · exact hsession

theorem Passes.startWorker (h : Passes P s) (cleanup : Bool) (answers : Answers) :
    ∀ worker ∈ s.workers ++ [⟨cleanup, answers, none⟩], ∀ message ∈ worker.toPush,
      P message.message ∧ ForProxy message.message :=
  List.forall_mem_append.2 ⟨h.toPush, List.forall_mem_singleton.2 fun _ hmessage => by cases hmessage⟩

theorem Passes.processAnswer (h : Passes P s)
    (herror : ∀ message : VsomeipMessage, message.messageType = .error → P message) (i : ℕ) {worker : Worker}
    (hworker : worker ∈ s.workers) (key : FakeSessionId) (entry : Entry) (mainLoop throws : Bool) :
    Passes P (processAnswer i worker key entry mainLoop throws s) := by
  have hresponse : (entry.message.message.createErrorResponseMessage .timeout).messageType = .error := rfl
  have hset : ∀ new : Worker, (∀ message ∈ new.toPush, P message.message ∧ ForProxy message.message) →
      ∀ other ∈ s.workers.set i new, ∀ message ∈ other.toPush, P message.message ∧ ForProxy message.message := by
    intro new hnew other hother
    rcases List.mem_or_eq_of_mem_set hother with hother | rfl
    · exact h.toPush other hother
    · exact hnew
  unfold AsyncAnswers.processAnswer
  dsimp only
  split
  · refine ⟨h.arriving, h.queue, h.handling, hset _ fun message hmessage => ?_, h.answers, h.invoked, h.returned⟩
    cases hmessage
    exact ⟨herror _ hresponse, (isReply_error hresponse).forProxy⟩
  · exact ⟨h.arriving, h.queue, h.handling, hset _ (h.toPush worker hworker), h.answers,
      List.forall_mem_append.2
        ⟨h.invoked, List.forall_mem_singleton.2 ⟨herror _ hresponse, isReply_error hresponse⟩⟩, h.returned⟩

theorem step_passes {timeoutWarnThreshold : Option ℤ} {a : Action} (h : Passes P s)
    (herror : ∀ message : VsomeipMessage, message.messageType = .error → P message)
    (hdeliver : ∀ message, a = .deliver message → P message) (hstep : step timeoutWarnThreshold s a = some t) :
    Passes P t := by
  cases a with
  | callMethodAsync message isAvailable timeout isConnected session =>
    cases hstep
    exact h.callMethodAsync _ _ _ _ _ _
  | availabilityCallback i isAvailable remaining isConnected session =>
    rcases Option.map_eq_some_iff.1 hstep with ⟨waiting, _, heq⟩
    subst heq
    have hrest : Passes P { s with timeouts := s.timeouts.eraseIdx i } :=
      ⟨h.arriving, h.queue, h.handling, h.toPush, h.answers, h.invoked, h.returned⟩
    exact hrest.availabilityCallback herror _ _ _ _ _ _
  | startBlocking message timeout isConnected session isAvailable =>
    cases hstep
    exact h.startBlocking _ _ _ _ _
  | finishBlocking i isAvailable =>
    rcases Option.bind_eq_some_iff.1 hstep with ⟨blocked, _, hfinish⟩
    split at hfinish
    · cases hfinish
      exact h.finishBlocking i blocked
    · cases hfinish
  | deliver message =>
    cases hstep
    exact ⟨List.forall_mem_append.2 ⟨h.arriving, List.forall_mem_singleton.2 (hdeliver message rfl)⟩, h.queue,
      h.handling, h.toPush, h.answers, h.invoked, h.returned⟩
  | receive i mainLoop =>
    rcases Option.map_eq_some_iff.1 hstep with ⟨message, hmessage, heq⟩
    subst heq
    have hrest : Passes P { s with arriving := s.arriving.eraseIdx i } :=
      ⟨fun other hother => h.arriving other (List.mem_of_mem_eraseIdx hother), h.queue, h.handling, h.toPush,
        h.answers, h.invoked, h.returned⟩
    exact hrest.receive (h.arriving message (List.mem_of_getElem? hmessage)) mainLoop
  | dispatch i =>
    rcases Option.map_eq_some_iff.1 hstep with ⟨message, hmessage, heq⟩
    subst heq
    exact ⟨h.arriving, fun other hother => h.queue other (List.mem_of_mem_eraseIdx hother),
      List.forall_mem_append.2
        ⟨h.handling, List.forall_mem_singleton.2 (h.queue message (List.mem_of_getElem? hmessage))⟩,
      h.toPush, h.answers, h.invoked, h.returned⟩
  | handleProxyReceive i =>
    rcases Option.map_eq_some_iff.1 hstep with ⟨message, hmessage, heq⟩
    subst heq
    have hrest : Passes P { s with handling := s.handling.eraseIdx i } :=
      ⟨h.arriving, h.queue, fun other hother => h.handling other (List.mem_of_mem_eraseIdx hother), h.toPush,
        h.answers, h.invoked, h.returned⟩
    have hmine := h.handling message (List.mem_of_getElem? hmessage)
    exact hrest.handleProxyReceive hmine.1 hmine.2
  | cleanup now =>
    change (if now ≤ s.now then _ else _) = _ at hstep
    split at hstep
    · cases hstep
      exact ⟨h.arriving, h.queue, h.handling, h.startWorker _ _, h.answers, h.invoked, h.returned⟩
    · cases hstep
  | cancelAsyncAnswers service instance_ =>
    cases hstep
    exact ⟨h.arriving, h.queue, h.handling, h.startWorker _ _, h.answers, h.invoked, h.returned⟩
  | processAnswer i key mainLoop throws =>
    rcases Option.bind_eq_some_iff.1 hstep with ⟨worker, hworker, hprocess⟩
    split at hprocess
    · cases hprocess
    · rcases Option.map_eq_some_iff.1 hprocess with ⟨entry, _, heq⟩
      subst heq
      exact h.processAnswer herror i (List.mem_of_getElem? hworker) key entry mainLoop throws
  | pushQueue i =>
    rcases Option.bind_eq_some_iff.1 hstep with ⟨worker, hworker, hpush⟩
    rcases Option.map_eq_some_iff.1 hpush with ⟨message, hmessage, heq⟩
    subst heq
    refine ⟨h.arriving, List.forall_mem_append.2 ⟨h.queue, List.forall_mem_singleton.2
      (h.toPush worker (List.mem_of_getElem? hworker) message hmessage)⟩, h.handling, fun other hother => ?_,
      h.answers, h.invoked, h.returned⟩
    rcases List.mem_or_eq_of_mem_set hother with hother | rfl
    · exact h.toPush other hother
    · intro _ hnone
      cases hnone
  | elapse time =>
    cases hstep
    exact ⟨h.arriving, h.queue, h.handling, h.toPush, h.answers, h.invoked, h.returned⟩

theorem Passes.mono {Q : VsomeipMessage → Prop} (h : Passes P s) (hPQ : ∀ message, P message → Q message) :
    Passes Q s where
  arriving message hmem := hPQ _ (h.arriving message hmem)
  queue message hmem := (h.queue message hmem).imp_left (hPQ _)
  handling message hmem := (h.handling message hmem).imp_left (hPQ _)
  toPush worker hworker message hmem := (h.toPush worker hworker message hmem).imp_left (hPQ _)
  answers y hy message hmem := (h.answers y hy message hmem).imp_left (hPQ _)
  invoked invocation hmem := (h.invoked invocation hmem).imp_left (hPQ _)
  returned returned hreturned message hmem := (h.returned returned hreturned message hmem).imp_left (hPQ _)

end Messages

/-- What has become of the calls: one handler may have been stored, with a message that has the
    session or none. -/
structure Stores (handler : ℕ) (session : Option SessionId) (s t : State) : Prop where
  handlers : t.handlers = s.handlers
  timeouts : ∀ waiting ∈ t.timeouts, waiting ∈ s.timeouts
  sessions : ∀ given ∈ s.sessions, given ∈ t.sessions
  given : ∀ given ∈ session, given ∈ t.sessions
  stored : ∀ other stored, t.stored other = some stored → s.stored other = some stored ∨
    other = handler ∧ (stored.message.session = 0 ∨ stored.message.session ∈ session)

section Calls
variable {s t : State} {handler : ℕ} {session : Option SessionId}

theorem Stores.refl (handler : ℕ) (s : State) : Stores handler none s s where
  handlers := rfl
  timeouts _ h := h
  sessions _ h := h
  given _ h := by cases h
  stored _ _ h := Or.inl h

theorem stores_nothing (handler : ℕ) (hhandlers : t.handlers = s.handlers) (htimeouts : t.timeouts = s.timeouts)
    (hsessions : t.sessions = s.sessions) (hstored : t.stored = s.stored) : Stores handler none s t where
  handlers := hhandlers
  timeouts _ h := htimeouts ▸ h
  sessions _ h := hsessions.symm ▸ h
  given _ h := by cases h
  stored _ _ h := Or.inl (hstored ▸ h)

theorem mem_update {stored : ℕ → Option Stored} {new : Stored} {other : ℕ} {found : Stored}
    (h : Function.update stored handler (some new) other = some found) :
    stored other = some found ∨ other = handler ∧ found = new := by
  by_cases hother : other = handler
  · subst hother
    rw [Function.update_self] at h
    exact Or.inr ⟨rfl, (Option.some.inj h).symm⟩
  · rw [Function.update_of_ne hother] at h
    exact Or.inl h

theorem sendMessageWithReplyAsync_stores (timeoutWarnThreshold : Option ℤ) (message : MessageObject) (handler : ℕ)
    (timeout : ℤ) {isConnected : Bool} (hfresh : isConnected = true → Fresh s session) :
    Stores handler (if isConnected then session else none) s
      (sendMessageWithReplyAsync timeoutWarnThreshold message handler timeout isConnected session s).2 := by
  cases isConnected with
  | false => exact Stores.refl handler s
  | true =>
    rcases hfresh rfl with ⟨given, hgiven, -, -⟩
    cases hgiven
    have hsent : Stores handler (some given) s { s with sessions := given :: s.sessions } :=
      ⟨rfl, fun _ h => h, fun _ h => List.mem_cons_of_mem given h,
        fun _ h => by cases h; exact List.mem_cons_self, fun _ _ h => Or.inl h⟩
    unfold sendMessageWithReplyAsync send
    dsimp only
    rw [if_pos rfl, if_neg (by decide)]
    split
    · exact hsent
    · refine ⟨rfl, hsent.timeouts, hsent.sessions, hsent.given, fun other stored h => ?_⟩
      rcases mem_update h with hold | ⟨hother, hstored⟩
      · exact Or.inl hold
      · rw [hstored]
        exact Or.inr ⟨hother, Or.inr rfl⟩

theorem proxyPushMessageToMainLoop_stores (message : MessageObject) (handler : ℕ) (s : State) :
    Stores handler (if message.session = 0 then none else some message.session) s
      (proxyPushMessageToMainLoop message handler s) := by
  unfold proxyPushMessageToMainLoop
  dsimp only
  by_cases hsession : message.session = 0
  · rw [if_pos hsession, if_pos hsession]
    refine ⟨rfl, fun _ h => h, fun _ h => h, fun _ h => (by cases h), fun other stored h => ?_⟩
    rcases mem_update h with hold | ⟨hother, hstored⟩
    · exact Or.inl hold
    · rw [hstored]
      exact Or.inr ⟨hother, Or.inl hsession⟩
  · rw [if_neg hsession, if_neg hsession]
    refine ⟨rfl, fun _ h => h, fun _ h => List.mem_cons_of_mem _ h, fun given h => ?_, fun other stored h => ?_⟩
    · cases h
      exact List.mem_cons_self
    · rcases mem_update h with hold | ⟨hother, hstored⟩
      · exact Or.inl hold
      · rw [hstored]
        exact Or.inr ⟨hother, Or.inr rfl⟩

/-- What becomes of a call that waits for the service, when its callback is called. -/
theorem availabilityCallback_stores (timeoutWarnThreshold : Option ℤ) (waiting : Waiting) (i : ℕ)
    {isAvailable isConnected : Bool} (remaining : ℤ)
    (hfresh : isAvailable = true → isConnected = true → Fresh s session) :
    Stores waiting.handler
      (if isAvailable then if isConnected then session else none
        else if waiting.message.session = 0 then none else some waiting.message.session) s
      (availabilityCallback timeoutWarnThreshold waiting isAvailable remaining isConnected session
        { s with timeouts := s.timeouts.eraseIdx i }) := by
  unfold availabilityCallback
  cases isAvailable with
  | true =>
    have hstores := sendMessageWithReplyAsync_stores timeoutWarnThreshold waiting.message waiting.handler
      (if remaining < 100 then 100 else remaining) (s := { s with timeouts := s.timeouts.eraseIdx i }) (hfresh rfl)
    exact ⟨hstores.handlers, fun other hother => List.mem_of_mem_eraseIdx (hstores.timeouts other hother),
      hstores.sessions, hstores.given, hstores.stored⟩
  | false =>
    have hstores := proxyPushMessageToMainLoop_stores
      ⟨s.objects, waiting.message.call, waiting.message.message.createErrorResponseMessage .notReachable⟩
      waiting.handler { s with timeouts := s.timeouts.eraseIdx i, objects := s.objects + 1 }
    exact ⟨hstores.handlers, fun other hother => List.mem_of_mem_eraseIdx (hstores.timeouts other hother),
      hstores.sessions, hstores.given, hstores.stored⟩

theorem startBlocking_stores (handler : ℕ) (message : VsomeipMessage) (timeout : ℤ) {isConnected : Bool}
    (hfresh : isConnected = true → Fresh s session) (isAvailable : Bool) :
    Stores handler (if isConnected then session else none) s
      (startBlocking message timeout isConnected session isAvailable s) := by
  cases isConnected with
  | false => exact stores_nothing handler rfl rfl rfl rfl
  | true =>
    rcases hfresh rfl with ⟨given, hgiven, -, -⟩
    cases hgiven
    unfold startBlocking send
    dsimp only
    rw [if_pos rfl, if_neg (by decide)]
    split
    · exact ⟨rfl, fun _ h => h, fun _ h => List.mem_cons_of_mem given h,
        fun _ h => by cases h; exact List.mem_cons_self, fun _ _ h => Or.inl h⟩
    · split <;> exact ⟨rfl, fun _ h => h, fun _ h => List.mem_cons_of_mem given h,
        fun _ h => by cases h; exact List.mem_cons_self, fun _ _ h => Or.inl h⟩

def Quiet : Action → Prop
  | .callMethodAsync .. | .availabilityCallback .. | .startBlocking .. => False
  | _ => True

theorem sessionOf_stores (handler : ℕ) (message : MessageObject) (s : State) :
    Stores handler none s (sessionOf message s).2 := by
  unfold sessionOf
  split
  · split <;> exact stores_nothing handler rfl rfl rfl rfl
  · exact Stores.refl handler s

theorem handleProxyReceive_stores (handler : ℕ) (message : MessageObject) (s : State) :
    Stores handler none s (handleProxyReceive message s) := by
  have hsession := sessionOf_stores handler message s
  unfold handleProxyReceive
  dsimp only
  split
  · exact hsession
  · split
    · exact { hsession with }
    · split
      · exact { hsession with }
      · split
        · exact { hsession with }
        · exact hsession

theorem step_stores {timeoutWarnThreshold : Option ℤ} {a : Action} (handler : ℕ) (hquiet : Quiet a)
    (hstep : step timeoutWarnThreshold s a = some t) : Stores handler none s t := by
  cases a with
  | callMethodAsync message isAvailable timeout isConnected session => exact hquiet.elim
  | availabilityCallback i isAvailable remaining isConnected session => exact hquiet.elim
  | startBlocking message timeout isConnected session isAvailable => exact hquiet.elim
  | finishBlocking i isAvailable =>
    rcases Option.bind_eq_some_iff.1 hstep with ⟨blocked, _, hfinish⟩
    split at hfinish
    · cases hfinish
      exact stores_nothing handler rfl rfl rfl rfl
    · cases hfinish
  | deliver message =>
    cases hstep
    exact stores_nothing handler rfl rfl rfl rfl
  | receive i mainLoop =>
    rcases Option.map_eq_some_iff.1 hstep with ⟨message, _, heq⟩
    subst heq
    unfold receive
    split
    · exact stores_nothing handler rfl rfl rfl rfl
    · exact stores_nothing handler rfl rfl rfl rfl
    · split <;> exact stores_nothing handler rfl rfl rfl rfl
    · split <;> exact stores_nothing handler rfl rfl rfl rfl
    · split <;> exact stores_nothing handler rfl rfl rfl rfl
  | dispatch i =>
    rcases Option.map_eq_some_iff.1 hstep with ⟨message, _, heq⟩
    subst heq
    exact stores_nothing handler rfl rfl rfl rfl
  | handleProxyReceive i =>
    rcases Option.map_eq_some_iff.1 hstep with ⟨message, _, heq⟩
    subst heq
    exact { handleProxyReceive_stores handler message { s with handling := s.handling.eraseIdx i } with }
  | cleanup now =>
    change (if now ≤ s.now then _ else _) = _ at hstep
    split at hstep
    · cases hstep
      exact stores_nothing handler rfl rfl rfl rfl
    · cases hstep
  | cancelAsyncAnswers service instance_ =>
    cases hstep
    exact stores_nothing handler rfl rfl rfl rfl
  | processAnswer i key mainLoop throws =>
    rcases Option.bind_eq_some_iff.1 hstep with ⟨worker, _, hprocess⟩
    split at hprocess
    · cases hprocess
    · rcases Option.map_eq_some_iff.1 hprocess with ⟨entry, _, heq⟩
      subst heq
      unfold processAnswer
      cases mainLoop <;> exact stores_nothing handler rfl rfl rfl rfl
  | pushQueue i =>
    rcases Option.bind_eq_some_iff.1 hstep with ⟨worker, _, hpush⟩
    rcases Option.map_eq_some_iff.1 hpush with ⟨message, _, heq⟩
    subst heq
    exact stores_nothing handler rfl rfl rfl rfl
  | elapse time =>
    cases hstep
    exact stores_nothing handler rfl rfl rfl rfl

end Calls

end SomeIPRuntime.AsyncAnswers
