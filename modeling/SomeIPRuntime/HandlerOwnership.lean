import Mathlib.Algebra.Order.Group.Multiset
import Mathlib.Algebra.Order.BigOperators.Group.List
import Mathlib.Tactic.Abel
import SomeIPRuntime.AsyncAnswers

set_option autoImplicit false

namespace SomeIPRuntime.AsyncAnswers

variable {s t : State}

def held (answers : Answers) : Multiset ℕ := (answers.entries.map fun x => x.2.handler : List ℕ)

theorem held_insert (key : FakeSessionId) (entry : Entry) {answers : Answers} (h : key ∉ answers) :
    held (answers.insert key entry) = {entry.handler} + held answers := by
  unfold held
  rw [AList.entries_insert_of_notMem h]
  rfl

theorem held_insert_le (key : FakeSessionId) (entry : Entry) (answers : Answers) :
    held (answers.insert key entry) ≤ {entry.handler} + held answers := by
  obtain ⟨l, hperm, hsub⟩ := Tables.insert_subperm key entry answers
  refine Multiset.coe_le.2 ⟨l.map fun x => x.2.handler, hperm.map _, ?_⟩
  exact hsub.map fun x : Sigma fun _ : FakeSessionId => Entry => x.2.handler

theorem held_erase {key : FakeSessionId} {entry : Entry} {answers : Answers}
    (h : answers.lookup key = some entry) :
    held answers = {entry.handler} + held (answers.erase key) :=
  Multiset.coe_eq_coe.2 ((Tables.perm_cons_erase h).map _)

theorem held_filter (p : FakeSessionId → Entry → Bool) (answers : Answers) :
    held (Tables.filter p answers) + held (Tables.filter (fun key entry => !p key entry) answers) =
      held answers := by
  unfold held
  rw [Multiset.coe_add, ← List.map_append]
  exact Multiset.coe_eq_coe.2 ((Tables.filter_append p answers).map _)

theorem held_map {f : Entry → Entry} (hf : ∀ entry, (f entry).handler = entry.handler)
    (answers : Answers) : held (Tables.map f answers) = held answers := by
  unfold held Tables.map
  rw [List.map_map]
  exact congrArg _ (List.map_congr_left fun x _ => hf x.2)

def waiting (s : State) : Multiset ℕ := (s.timeouts.map Waiting.handler : List ℕ)

def working (s : State) : Multiset ℕ :=
  (s.workers.map fun worker => held worker.asyncAnswersToProcess).sum

def answered (s : State) : Multiset ℕ := (s.invoked.map Invocation.handler : List ℕ)

def handlers (s : State) : Multiset ℕ :=
  waiting s + held s.asyncAnswers + held s.asyncTimeouts + working s + answered s

theorem waiting_le (s : State) : waiting s ≤ handlers s := by
  unfold handlers
  rw [add_assoc, add_assoc, add_assoc]
  exact Multiset.le_add_right _ _

theorem answered_le (s : State) : answered s ≤ handlers s := Multiset.le_add_left _ _

theorem answered_append (invocation : Invocation) :
    answered { s with invoked := s.invoked ++ [invocation] } = answered s + {invocation.handler} := by
  unfold answered
  rw [List.map_append, ← Multiset.coe_add]
  rfl

theorem working_append (worker : Worker) :
    working { s with workers := s.workers ++ [worker] } =
      working s + held worker.asyncAnswersToProcess := by
  unfold working
  rw [List.map_append, List.sum_append, List.map_singleton, List.sum_singleton]

theorem working_set {i : ℕ} {old : Worker} (h : s.workers[i]? = some old) (new : Worker) :
    ∃ rest, working s = held old.asyncAnswersToProcess + rest ∧
      working { s with workers := s.workers.set i new } = held new.asyncAnswersToProcess + rest := by
  obtain ⟨rest, hold, hnew⟩ := Tables.set_perm h new
  refine ⟨(rest.map fun worker => held worker.asyncAnswersToProcess).sum, ?_, ?_⟩
  · exact (hold.map _).sum_eq
  · exact (hnew.map _).sum_eq

theorem waiting_eraseIdx {i : ℕ} {old : Waiting} (h : s.timeouts[i]? = some old) :
    waiting s = {old.handler} + waiting { s with timeouts := s.timeouts.eraseIdx i } :=
  Multiset.coe_eq_coe.2 ((Tables.eraseIdx_perm h).map _)

theorem store_handlers (key : FakeSessionId) (entry : Entry) (timeout : ℤ) (s : State) :
    handlers (store key entry timeout s) ≤ {entry.handler} + handlers s ∧
      (key ∉ s.asyncAnswers → handlers (store key entry timeout s) = {entry.handler} + handlers s) := by
  refine ⟨?_, fun hnotMem => ?_⟩
  · have hle := held_insert_le key entry s.asyncAnswers
    calc handlers (store key entry timeout s)
        = held (s.asyncAnswers.insert key entry) +
            (waiting s + held s.asyncTimeouts + working s + answered s) := by
          change waiting s + held (s.asyncAnswers.insert key entry) + held s.asyncTimeouts +
            working s + answered s = _
          abel
      _ ≤ {entry.handler} + held s.asyncAnswers +
            (waiting s + held s.asyncTimeouts + working s + answered s) := by gcongr
      _ = {entry.handler} + handlers s := by
          unfold handlers
          abel
  · change waiting s + held (s.asyncAnswers.insert key entry) + held s.asyncTimeouts +
      working s + answered s = _
    rw [held_insert key entry hnotMem]
    unfold handlers
    abel

def sentSession (message : MessageObject) (session : Option SessionId) : SessionId :=
  session.getD message.session

def Sent (message : MessageObject) (isConnected : Bool) (session : Option SessionId) (s : State) : Prop :=
  isConnected = true ∧ s.lastSessionId ≠ sentSession message session ∧
    fake (sentSession message session) ∉ s.asyncAnswers

theorem send_handlers (message : MessageObject) (session : Option SessionId) (s : State) :
    handlers (send message session s).2 = handlers s ∧
      (send message session s).2.asyncAnswers = s.asyncAnswers ∧
      (send message session s).2.lastSessionId = s.lastSessionId ∧
      (send message session s).2.handlers = s.handlers ∧
      (send message session s).1.session = sentSession message session := by
  unfold send
  cases session with
  | some session => exact ⟨rfl, rfl, rfl, rfl, rfl⟩
  | none => exact ⟨rfl, rfl, rfl, rfl, rfl⟩

theorem sendMessageWithReplyAsync_handlers (timeoutWarnThreshold : Option ℤ) (message : MessageObject)
    (handler : ℕ) (timeout : ℤ) (isConnected : Bool) (session : Option SessionId) (s : State) :
    let t := (sendMessageWithReplyAsync timeoutWarnThreshold message handler timeout isConnected session s).2
    handlers t ≤ {handler} + handlers s ∧
      (Sent message isConnected session s → handlers t = {handler} + handlers s) ∧
      t.handlers = s.handlers := by
  obtain ⟨hhandlers, hanswers, hlast, hcount, hsession⟩ := send_handlers message session s
  cases isConnected with
  | false =>
    refine ⟨Multiset.le_add_left _ _, fun hsent => ?_, rfl⟩
    cases hsent.1
  | true =>
    unfold sendMessageWithReplyAsync
    simp only [Bool.not_true, Bool.false_eq_true, if_false]
    by_cases hsame : (send message session s).2.lastSessionId = (send message session s).1.session
    · rw [if_pos hsame, hhandlers]
      refine ⟨Multiset.le_add_left _ _, fun hsent => ?_, hcount⟩
      rw [hlast, hsession] at hsame
      exact absurd hsame hsent.2.1
    · rw [if_neg hsame]
      obtain ⟨hle, heq⟩ := store_handlers (fake (send message session s).1.session)
        ⟨(send message session s).2.now +
            milliseconds (timeout - warnThreshold timeoutWarnThreshold timeout),
          (send message session s).1, handler, warnThreshold timeoutWarnThreshold timeout⟩ timeout
        { (send message session s).2 with lastSessionId := (send message session s).1.session }
      refine ⟨?_, fun hsent => ?_, hcount⟩
      · rw [← hhandlers]
        exact hle
      · rw [← hhandlers]
        refine heq ?_
        change _ ∉ (send message session s).2.asyncAnswers
        rw [hanswers, hsession]
        exact hsent.2.2

def Pushed (message : MessageObject) (s : State) : Prop :=
  (if message.session = 0 then nextKey s else fake message.session) ∉ s.asyncAnswers

theorem proxyPushMessageToMainLoop_handlers (message : MessageObject) (handler : ℕ) (s : State) :
    handlers (proxyPushMessageToMainLoop message handler s) ≤ {handler} + handlers s ∧
      (Pushed message s →
        handlers (proxyPushMessageToMainLoop message handler s) = {handler} + handlers s) ∧
      (proxyPushMessageToMainLoop message handler s).handlers = s.handlers := by
  unfold proxyPushMessageToMainLoop Pushed
  by_cases hsession : message.session = 0
  · simp only [hsession, if_true]
    have hstore := store_handlers (nextKey s)
      ⟨s.now + milliseconds ASYNC_MESSAGE_REPLY_TIMEOUT_MS, message, handler, 0⟩
      ASYNC_MESSAGE_REPLY_TIMEOUT_MS
      { s with
        fakeSessionId := nextFakeSessionId s.fakeSessionId
        errorResponses := s.errorResponses.insert message (nextKey s) }
    exact ⟨hstore.1, hstore.2, rfl⟩
  · simp only [hsession, if_false]
    have hstore := store_handlers (fake message.session)
      ⟨s.now + milliseconds ASYNC_MESSAGE_REPLY_TIMEOUT_MS, message, handler, 0⟩
      ASYNC_MESSAGE_REPLY_TIMEOUT_MS { s with sessions := message.session :: s.sessions }
    exact ⟨hstore.1, hstore.2, rfl⟩

theorem receive_handlers (message : MessageObject) (mainLoop : Bool) (s : State) :
    handlers (receive message mainLoop s) = handlers s ∧
      (receive message mainLoop s).handlers = s.handlers := by
  unfold receive
  split <;> (try split) <;> exact ⟨rfl, rfl⟩

theorem sessionOf_handlers (message : MessageObject) (s : State) :
    handlers (sessionOf message s).2 = handlers s ∧ (sessionOf message s).2.handlers = s.handlers := by
  unfold sessionOf
  split
  · split <;> exact ⟨rfl, rfl⟩
  · exact ⟨rfl, rfl⟩

theorem take_answer {key : FakeSessionId} {entry : Entry} (h : s.asyncAnswers.lookup key = some entry)
    (callStatus : MethodCalls.CallStatus) (message : MessageObject) :
    handlers { s with
      asyncAnswers := s.asyncAnswers.erase key
      invoked := s.invoked ++ [⟨entry.handler, callStatus, message⟩] } = handlers s := by
  change waiting s + held (s.asyncAnswers.erase key) + held s.asyncTimeouts + working s +
    answered { s with invoked := s.invoked ++ [⟨entry.handler, callStatus, message⟩] } = _
  unfold handlers
  rw [answered_append, held_erase h]
  abel

theorem take_timeout {key : FakeSessionId} {entry : Entry} (h : s.asyncTimeouts.lookup key = some entry)
    (callStatus : MethodCalls.CallStatus) (message : MessageObject) :
    handlers { s with
      asyncTimeouts := s.asyncTimeouts.erase key
      invoked := s.invoked ++ [⟨entry.handler, callStatus, message⟩] } = handlers s := by
  change waiting s + held s.asyncAnswers + held (s.asyncTimeouts.erase key) + working s +
    answered { s with invoked := s.invoked ++ [⟨entry.handler, callStatus, message⟩] } = _
  unfold handlers
  rw [answered_append, held_erase h]
  abel

theorem handleProxyReceive_handlers (message : MessageObject) (s : State) :
    handlers (handleProxyReceive message s) = handlers s ∧
      (handleProxyReceive message s).handlers = s.handlers := by
  obtain ⟨hhandlers, hcount⟩ := sessionOf_handlers message s
  unfold handleProxyReceive
  dsimp only
  split
  · exact ⟨hhandlers, hcount⟩
  · split
    · exact ⟨hhandlers, hcount⟩
    · split
      next entry hlookup => exact ⟨(take_answer hlookup _ _).trans hhandlers, hcount⟩
      · split
        next entry hlookup => exact ⟨(take_timeout hlookup _ _).trans hhandlers, hcount⟩
        · exact ⟨hhandlers, hcount⟩

theorem start_worker (p : FakeSessionId → Entry → Bool) (answers : Answers)
    (h : held answers = held s.asyncAnswers) (isCleanup : Bool) :
    handlers { s with
      asyncAnswers := Tables.filter (fun key entry => !p key entry) answers
      workers := s.workers ++ [⟨isCleanup, Tables.filter p answers, none⟩] } = handlers s := by
  change waiting s + held (Tables.filter (fun key entry => !p key entry) answers) +
    held s.asyncTimeouts +
    working { s with workers := s.workers ++ [⟨isCleanup, Tables.filter p answers, none⟩] } +
    answered s = _
  unfold handlers
  rw [working_append, ← h, ← held_filter p answers]
  abel

theorem warned_handler (now : Time) (entry : Entry) : (warned now entry).handler = entry.handler := by
  unfold warned
  split <;> rfl

theorem cleanup_handlers (now : Time) (s : State) :
    handlers (cleanup now s) = handlers s ∧ (cleanup now s).handlers = s.handlers :=
  ⟨start_worker (fun _ entry => isExpired now entry) (Tables.map (warned now) s.asyncAnswers)
    (held_map (warned_handler now) s.asyncAnswers) true, rfl⟩

theorem cancelAsyncAnswers_handlers (service : ServiceId) (instance_ : InstanceId) (s : State) :
    handlers (cancelAsyncAnswers service instance_ s) = handlers s ∧
      (cancelAsyncAnswers service instance_ s).handlers = s.handlers :=
  ⟨start_worker (fun _ entry => isFor service instance_ entry) s.asyncAnswers rfl false, rfl⟩

def Processed (worker : Worker) (key : FakeSessionId) (mainLoop throws : Bool) (s : State) : Prop :=
  if mainLoop then key ∉ s.asyncTimeouts else (worker.cleanup && throws) = false

theorem processAnswer_handlers {i : ℕ} {worker : Worker} {key : FakeSessionId} {entry : Entry}
    (hworker : s.workers[i]? = some worker)
    (hlookup : worker.asyncAnswersToProcess.lookup key = some entry) (mainLoop throws : Bool) :
    handlers (processAnswer i worker key entry mainLoop throws s) ≤ handlers s ∧
      (Processed worker key mainLoop throws s →
        handlers (processAnswer i worker key entry mainLoop throws s) = handlers s) ∧
      (processAnswer i worker key entry mainLoop throws s).handlers = s.handlers := by
  unfold processAnswer Processed createErrorResponse
  cases mainLoop with
  | true =>
    obtain ⟨rest, hold, hnew⟩ := working_set hworker
      { worker with
        asyncAnswersToProcess := worker.asyncAnswersToProcess.erase key
        toPush := some ⟨s.objects, entry.message.call,
          entry.message.message.createErrorResponseMessage .timeout⟩ }
    have heq : handlers s = waiting s + held s.asyncAnswers + ({entry.handler} + held s.asyncTimeouts) +
        (held (worker.asyncAnswersToProcess.erase key) + rest) + answered s := by
      unfold handlers
      rw [hold, held_erase hlookup]
      abel
    refine ⟨?_, fun hnotMem => ?_, rfl⟩
    · change waiting s + held s.asyncAnswers + held (s.asyncTimeouts.insert key entry) +
        working { s with workers := s.workers.set i _ } + answered s ≤ _
      rw [hnew, heq]
      have hle := held_insert_le key entry s.asyncTimeouts
      gcongr
    · change waiting s + held s.asyncAnswers + held (s.asyncTimeouts.insert key entry) +
        working { s with workers := s.workers.set i _ } + answered s = _
      rw [hnew, heq, held_insert key entry hnotMem]
  | false =>
    obtain ⟨rest, hold, hnew⟩ := working_set hworker
      { worker with
        asyncAnswersToProcess :=
          if worker.cleanup && throws then ∅ else worker.asyncAnswersToProcess.erase key }
    have hdone : handlers s = waiting s + held s.asyncAnswers + held s.asyncTimeouts +
        (held (worker.asyncAnswersToProcess.erase key) + rest) + (answered s + {entry.handler}) := by
      unfold handlers
      rw [hold, held_erase hlookup]
      abel
    have hle : held (if worker.cleanup && throws then ∅ else worker.asyncAnswersToProcess.erase key) ≤
        held (worker.asyncAnswersToProcess.erase key) := by
      split
      · exact Multiset.zero_le _
      · exact le_rfl
    refine ⟨?_, fun hquiet => ?_, rfl⟩
    · change waiting s + held s.asyncAnswers + held s.asyncTimeouts +
        working { s with workers := s.workers.set i _ } +
        answered { s with invoked := s.invoked ++ [⟨entry.handler, _, _⟩] } ≤ _
      rw [answered_append, hnew, hdone]
      gcongr
    · change (worker.cleanup && throws) = false at hquiet
      change waiting s + held s.asyncAnswers + held s.asyncTimeouts +
        working { s with workers := s.workers.set i _ } +
        answered { s with invoked := s.invoked ++ [⟨entry.handler, _, _⟩] } = _
      rw [answered_append, hnew, hdone, hquiet]
      rfl

theorem pushQueue_handlers {i : ℕ} {worker : Worker} (hworker : s.workers[i]? = some worker)
    (message : MessageObject) :
    handlers { s with
      queue := s.queue ++ [message]
      workers := s.workers.set i { worker with toPush := none } } = handlers s := by
  obtain ⟨rest, hold, hnew⟩ := working_set hworker { worker with toPush := none }
  change waiting s + held s.asyncAnswers + held s.asyncTimeouts +
    working { s with workers := s.workers.set i _ } + answered s = _
  unfold handlers
  rw [hnew, hold]

theorem startBlocking_handlers (message : VsomeipMessage) (timeout : ℤ) (isConnected : Bool)
    (session : Option SessionId) (isAvailable : Bool) (s : State) :
    handlers (startBlocking message timeout isConnected session isAvailable s) = handlers s ∧
      (startBlocking message timeout isConnected session isAvailable s).handlers = s.handlers := by
  obtain ⟨hhandlers, _, _, hcount, _⟩ :=
    send_handlers ⟨s.objects, none, message⟩ session { s with objects := s.objects + 1 }
  unfold startBlocking
  dsimp only
  split
  · exact ⟨rfl, rfl⟩
  · split
    · exact ⟨hhandlers, hcount⟩
    · split <;> exact ⟨hhandlers, hcount⟩

def Kept (s : State) : Action → Prop
  | .callMethodAsync message isAvailable _ isConnected session =>
    isAvailable = true → Sent ⟨s.objects, some s.handlers, message⟩ isConnected session s
  | .availabilityCallback i isAvailable _ isConnected session =>
    ∀ waiting ∈ s.timeouts[i]?,
      if isAvailable then Sent waiting.message isConnected session s
      else Pushed waiting.message s
  | .processAnswer i key mainLoop throws =>
    ∀ worker ∈ s.workers[i]?, Processed worker key mainLoop throws s
  | _ => True

def newHandler (s : State) : Action → Multiset ℕ
  | .callMethodAsync .. => {s.handlers}
  | _ => 0

theorem newHandler_cases (s : State) (a : Action) : newHandler s a = 0 ∨ newHandler s a = {s.handlers} := by
  cases a with
  | callMethodAsync => exact .inr rfl
  | _ => exact .inl rfl

theorem callMethodAsync_handlers (timeoutWarnThreshold : Option ℤ) (message : VsomeipMessage)
    (isAvailable : Bool) (timeout : ℤ) (isConnected : Bool) (session : Option SessionId) (s : State) :
    let t := callMethodAsync timeoutWarnThreshold message isAvailable timeout isConnected session s
    handlers t ≤ {s.handlers} + handlers s ∧
      ((isAvailable = true → Sent ⟨s.objects, some s.handlers, message⟩ isConnected session s) →
        handlers t = {s.handlers} + handlers s) ∧
      t.handlers = s.handlers + 1 := by
  unfold callMethodAsync
  cases isAvailable with
  | true =>
    obtain ⟨hle, heq, hcount⟩ := sendMessageWithReplyAsync_handlers timeoutWarnThreshold
      ⟨s.objects, some s.handlers, message⟩ s.handlers timeout isConnected session
      { s with objects := s.objects + 1, handlers := s.handlers + 1 }
    exact ⟨hle, fun hsent => heq (hsent rfl), hcount⟩
  | false =>
    have heq : handlers { s with
        objects := s.objects + 1
        handlers := s.handlers + 1
        timeouts := s.timeouts ++ [⟨s.handlers, ⟨s.objects, some s.handlers, message⟩⟩] } =
        {s.handlers} + handlers s := by
      have hwaiting : waiting { s with
          timeouts := s.timeouts ++ [⟨s.handlers, ⟨s.objects, some s.handlers, message⟩⟩] } =
          waiting s + {s.handlers} := by
        unfold waiting
        rw [List.map_append, ← Multiset.coe_add]
        rfl
      change waiting { s with timeouts := _ } + held s.asyncAnswers + held s.asyncTimeouts + working s +
        answered s = _
      rw [hwaiting]
      unfold handlers
      abel
    exact ⟨heq.le, fun _ => heq, rfl⟩

theorem availabilityCallback_handlers {i : ℕ} {waiting : Waiting} (hwaiting : s.timeouts[i]? = some waiting)
    (timeoutWarnThreshold : Option ℤ) (isAvailable : Bool) (remaining : ℤ) (isConnected : Bool)
    (session : Option SessionId) :
    let t := availabilityCallback timeoutWarnThreshold waiting isAvailable remaining isConnected session
      { s with timeouts := s.timeouts.eraseIdx i }
    handlers t ≤ handlers s ∧
      ((if isAvailable then Sent waiting.message isConnected session s else Pushed waiting.message s) →
        handlers t = handlers s) ∧
      t.handlers = s.handlers := by
  have htaken : handlers s =
      {waiting.handler} + handlers { s with timeouts := s.timeouts.eraseIdx i } := by
    change AsyncAnswers.waiting s + _ + _ + _ + _ = _ + (AsyncAnswers.waiting { s with timeouts := _ } +
      held s.asyncAnswers + held s.asyncTimeouts + working s + answered s)
    rw [waiting_eraseIdx hwaiting]
    abel
  unfold availabilityCallback
  rw [htaken]
  cases isAvailable with
  | true =>
    exact sendMessageWithReplyAsync_handlers timeoutWarnThreshold waiting.message waiting.handler
      (if remaining < 100 then 100 else remaining) isConnected session
      { s with timeouts := s.timeouts.eraseIdx i }
  | false =>
    exact proxyPushMessageToMainLoop_handlers
      ⟨s.objects, waiting.message.call,
        waiting.message.message.createErrorResponseMessage .notReachable⟩ waiting.handler
      { s with timeouts := s.timeouts.eraseIdx i, objects := s.objects + 1 }

theorem step_handlers {timeoutWarnThreshold : Option ℤ} {a : Action}
    (hstep : step timeoutWarnThreshold s a = some t) :
    handlers t ≤ newHandler s a + handlers s ∧ (Kept s a → handlers t = newHandler s a + handlers s) ∧
      t.handlers = s.handlers + (newHandler s a).card := by
  have hsame : ∀ {u : State}, handlers u = handlers s ∧ u.handlers = s.handlers →
      handlers u ≤ 0 + handlers s ∧ (True → handlers u = 0 + handlers s) ∧
        u.handlers = s.handlers + (0 : Multiset ℕ).card := by
    intro u ⟨hhandlers, hcount⟩
    rw [zero_add, Multiset.card_zero, Nat.add_zero]
    exact ⟨hhandlers.le, fun _ => hhandlers, hcount⟩
  cases a with
  | callMethodAsync message isAvailable timeout isConnected session =>
    cases hstep
    obtain ⟨hle, heq, hcount⟩ := callMethodAsync_handlers timeoutWarnThreshold message isAvailable
      timeout isConnected session s
    exact ⟨hle, heq, hcount⟩
  | availabilityCallback i isAvailable remaining isConnected session =>
    obtain ⟨waiting, hwaiting, heq⟩ := Option.map_eq_some_iff.1 hstep
    subst heq
    obtain ⟨hle, hkept, hcount⟩ := availabilityCallback_handlers hwaiting timeoutWarnThreshold isAvailable
      remaining isConnected session
    change _ ≤ 0 + _ ∧ (_ → _ = 0 + _) ∧ _
    rw [zero_add]
    exact ⟨hle, fun h => hkept (h waiting hwaiting), hcount⟩
  | startBlocking message timeout isConnected session isAvailable =>
    cases hstep
    exact hsame (startBlocking_handlers message timeout isConnected session isAvailable s)
  | finishBlocking i isAvailable =>
    obtain ⟨blocked, _, hfinish⟩ := Option.bind_eq_some_iff.1 hstep
    split at hfinish
    · cases hfinish
      exact hsame ⟨rfl, rfl⟩
    · cases hfinish
  | deliver message =>
    cases hstep
    exact hsame ⟨rfl, rfl⟩
  | receive i mainLoop =>
    obtain ⟨message, _, heq⟩ := Option.map_eq_some_iff.1 hstep
    subst heq
    exact hsame (receive_handlers message mainLoop { s with arriving := s.arriving.eraseIdx i })
  | dispatch i =>
    obtain ⟨message, _, heq⟩ := Option.map_eq_some_iff.1 hstep
    subst heq
    exact hsame ⟨rfl, rfl⟩
  | handleProxyReceive i =>
    obtain ⟨message, _, heq⟩ := Option.map_eq_some_iff.1 hstep
    subst heq
    exact hsame (handleProxyReceive_handlers message { s with handling := s.handling.eraseIdx i })
  | cleanup now =>
    change (if now ≤ s.now then _ else _) = _ at hstep
    split at hstep
    · cases hstep
      exact hsame (cleanup_handlers now s)
    · cases hstep
  | cancelAsyncAnswers service instance_ =>
    cases hstep
    exact hsame (cancelAsyncAnswers_handlers service instance_ s)
  | processAnswer i key mainLoop throws =>
    obtain ⟨worker, hworker, hprocess⟩ := Option.bind_eq_some_iff.1 hstep
    split at hprocess
    · cases hprocess
    · obtain ⟨entry, hlookup, heq⟩ := Option.map_eq_some_iff.1 hprocess
      subst heq
      obtain ⟨hle, hkept, hcount⟩ := processAnswer_handlers hworker hlookup mainLoop throws
      change _ ≤ 0 + _ ∧ (_ → _ = 0 + _) ∧ _
      rw [zero_add]
      exact ⟨hle, fun h => hkept (h worker hworker), hcount⟩
  | pushQueue i =>
    obtain ⟨worker, hworker, hpush⟩ := Option.bind_eq_some_iff.1 hstep
    obtain ⟨message, _, heq⟩ := Option.map_eq_some_iff.1 hpush
    subst heq
    exact hsame ⟨pushQueue_handlers hworker message, rfl⟩
  | elapse time =>
    cases hstep
    exact hsame ⟨rfl, rfl⟩

structure Owned (s : State) : Prop where
  once : (handlers s).Nodup
  old : ∀ handler ∈ handlers s, handler < s.handlers

theorem initial_owned : Owned initial where
  once := Multiset.nodup_zero
  old _ h := absurd h (Multiset.notMem_zero _)

theorem step_owned {timeoutWarnThreshold : Option ℤ} {a : Action} (h : Owned s)
    (hstep : step timeoutWarnThreshold s a = some t) : Owned t := by
  obtain ⟨hle, _, hcount⟩ := step_handlers hstep
  obtain hnew | hnew := newHandler_cases s a
  · rw [hnew, zero_add] at hle
    rw [hnew, Multiset.card_zero, Nat.add_zero] at hcount
    refine ⟨Multiset.nodup_of_le hle h.once, fun handler hmem => ?_⟩
    rw [hcount]
    exact h.old handler (Multiset.mem_of_le hle hmem)
  · rw [hnew] at hle
    rw [hnew, Multiset.card_singleton] at hcount
    have hfresh : s.handlers ∉ handlers s := fun hmem => absurd (h.old _ hmem) (lt_irrefl _)
    refine ⟨Multiset.nodup_of_le hle (Multiset.nodup_cons.2 ⟨hfresh, h.once⟩), fun handler hmem => ?_⟩
    rw [hcount]
    obtain heq | hold := Multiset.mem_add.1 (Multiset.mem_of_le hle hmem)
    · rw [Multiset.mem_singleton.1 heq]
      exact Nat.lt_succ_self _
    · exact (h.old handler hold).trans (Nat.lt_succ_self _)

end SomeIPRuntime.AsyncAnswers
