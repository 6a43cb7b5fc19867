import SomeIPRuntime.MethodCalls
import SomeIPRuntime.Tables

set_option autoImplicit false

/-!
# The replies that a connection waits for

Requests with a reply, what the connection keeps for them until the reply comes, and the
threads that take it from there: vsomeip with a message, the main loop, the cleanup, and
one that cancels the calls of a service that has gone. Each block under
`sendReceiveMutex_` is one step.
-/
namespace SomeIPRuntime

deriving instance DecidableEq for Message
deriving instance DecidableEq for VsomeipMessage

namespace AsyncAnswers
open MethodCalls (CallStatus replyStatus)

abbrev FakeSessionId := BitVec 32

abbrev Time := ℤ

def milliseconds (n : ℤ) : Time := n * 1000000

def ASYNC_MESSAGE_REPLY_TIMEOUT_MS : ℤ := 5000

/-- A `shared_ptr` to a message, with the number of the object. A request, and what is created in
    reply to it here, has the number of the handler of its call. -/
structure MessageObject where
  object : ℕ
  call : Option ℕ
  message : VsomeipMessage
  deriving DecidableEq

structure Entry where
  timeoutTime : Time
  message : MessageObject
  handler : ℕ
  warnThreshold : ℤ

abbrev Answers := AList fun _ : FakeSessionId => Entry

structure Waiting where
  handler : ℕ
  message : MessageObject

/-- A thread in `cleanup` or in `cancelAsyncAnswers`, after its locked block. -/
structure Worker where
  cleanup : Bool
  asyncAnswersToProcess : Answers
  toPush : Option MessageObject

structure Blocked where
  session : SessionId
  elapsed : Time

structure Invocation where
  handler : ℕ
  callStatus : CallStatus
  message : MessageObject

structure Returned where
  session : SessionId
  answer : Option MessageObject

structure Stored where
  message : MessageObject
  time : Time
  timeout : ℤ

structure Expiry where
  handler : ℕ
  now : Time

/-- The members of the connection, the `timeouts_` of its proxies, the messages that threads have in
    hand before `receive` and before `handleProxyReceive`, and the queue of the main loop. The last
    five record what has happened: the sessions that vsomeip has given, what was stored for each
    handler, the handlers that the cleanup has timed out, and what has come of the calls. -/
structure State where
  now : Time
  objects : ℕ
  handlers : ℕ
  fakeSessionId : BitVec 16
  lastSessionId : SessionId
  asyncAnswers : Answers
  asyncTimeouts : Answers
  sendAndBlockAnswers : AList fun _ : FakeSessionId => Option MessageObject
  errorResponses : AList fun _ : MessageObject => FakeSessionId
  timeouts : List Waiting
  arriving : List MessageObject
  queue : List MessageObject
  handling : List MessageObject
  workers : List Worker
  blocked : List Blocked
  sessions : List SessionId
  stored : ℕ → Option Stored
  expired : List Expiry
  invoked : List Invocation
  returned : List Returned

def initial : State :=
  ⟨0, 0, 0, 0, 0, ∅, ∅, ∅, ∅, [], [], [], [], [], [], [], fun _ => none, [], [], []⟩

def MessageObject.session (message : MessageObject) : SessionId := message.message.session

def fake (session : SessionId) : FakeSessionId := session.setWidth 32

def createErrorResponse (message : MessageObject) (returnCode : ReturnCode) (s : State) :
    MessageObject × State :=
  (⟨s.objects, message.call, message.message.createErrorResponseMessage returnCode⟩,
    { s with objects := s.objects + 1 })

/-- `application_->send`: a request that is sent has the session that vsomeip gives it. -/
def send (message : MessageObject) (session : Option SessionId) (s : State) : MessageObject × State :=
  match session with
  | some session =>
    ({ message with message := { message.message with session := session } },
      { s with sessions := session :: s.sessions })
  | none => (message, s)

def warnThreshold (timeoutWarnThreshold : Option ℤ) (timeout : ℤ) : ℤ :=
  match timeoutWarnThreshold with
  | some threshold => if threshold ≤ timeout then timeout >>> (2 : ℕ) else 0
  | none => 0

def store (key : FakeSessionId) (entry : Entry) (timeout : ℤ) (s : State) : State :=
  { s with
    asyncAnswers := s.asyncAnswers.insert key entry
    stored := Function.update s.stored entry.handler (some ⟨entry.message, s.now, timeout⟩) }

def sendMessageWithReplyAsync (timeoutWarnThreshold : Option ℤ) (message : MessageObject)
    (handler : ℕ) (timeout : ℤ) (isConnected : Bool) (session : Option SessionId) (s : State) :
    Bool × State :=
  if !isConnected then (false, s)
  else
    let (message, s) := send message session s
    if s.lastSessionId = message.session then (false, s)
    else
      let s := { s with lastSessionId := message.session }
      let warnThreshold := warnThreshold timeoutWarnThreshold timeout
      let timeoutTime := s.now + milliseconds (timeout - warnThreshold)
      (true, store (fake message.session) ⟨timeoutTime, message, handler, warnThreshold⟩ timeout s)

def nextFakeSessionId (fakeSessionId : BitVec 16) : BitVec 16 :=
  if fakeSessionId + 1 = 0 then fakeSessionId + 1 + 1 else fakeSessionId + 1

def nextKey (s : State) : FakeSessionId := (nextFakeSessionId s.fakeSessionId).setWidth 32 <<< 16

def proxyPushMessageToMainLoop (message : MessageObject) (handler : ℕ) (s : State) : State :=
  let timeoutTime := s.now + milliseconds ASYNC_MESSAGE_REPLY_TIMEOUT_MS
  let entry : Entry := ⟨timeoutTime, message, handler, 0⟩
  let t :=
    if message.session = 0 then
      store (nextKey s) entry ASYNC_MESSAGE_REPLY_TIMEOUT_MS
        { s with
          fakeSessionId := nextFakeSessionId s.fakeSessionId
          errorResponses := s.errorResponses.insert message (nextKey s) }
    else
      store (fake message.session) entry ASYNC_MESSAGE_REPLY_TIMEOUT_MS
        { s with sessions := message.session :: s.sessions }
  { t with arriving := t.arriving ++ [message] }

/-- `ProxyHelper::callMethodAsync`, once the arguments are written. -/
def callMethodAsync (timeoutWarnThreshold : Option ℤ) (message : VsomeipMessage) (isAvailable : Bool)
    (timeout : ℤ) (isConnected : Bool) (session : Option SessionId) (s : State) : State :=
  let request : MessageObject := ⟨s.objects, some s.handlers, message⟩
  let t := { s with objects := s.objects + 1, handlers := s.handlers + 1 }
  if isAvailable then
    (sendMessageWithReplyAsync timeoutWarnThreshold request s.handlers timeout isConnected session t).2
  else
    { t with timeouts := t.timeouts ++ [⟨s.handlers, request⟩] }

def availabilityCallback (timeoutWarnThreshold : Option ℤ) (waiting : Waiting) (isAvailable : Bool)
    (remaining : ℤ) (isConnected : Bool) (session : Option SessionId) (s : State) : State :=
  if isAvailable then
    let newTimeout := if remaining < 100 then 100 else remaining
    (sendMessageWithReplyAsync timeoutWarnThreshold waiting.message waiting.handler newTimeout
      isConnected session s).2
  else
    let (message, s) := createErrorResponse waiting.message .notReachable s
    proxyPushMessageToMainLoop message waiting.handler s

/-- The block of `sendMessageWithReplyAndBlock` up to the first wait. -/
def startBlocking (message : VsomeipMessage) (timeout : ℤ) (isConnected : Bool)
    (session : Option SessionId) (isAvailable : Bool) (s : State) : State :=
  if !isConnected then { s with returned := s.returned ++ [⟨message.session, none⟩] }
  else
    let (message, s) := send ⟨s.objects, none, message⟩ session { s with objects := s.objects + 1 }
    let session := message.session
    if fake session ∈ s.sendAndBlockAnswers then { s with returned := s.returned ++ [⟨session, none⟩] }
    else if !isAvailable then { s with returned := s.returned ++ [⟨session, none⟩] }
    else { s with
      sendAndBlockAnswers := s.sendAndBlockAnswers.insert (fake session) none
      blocked := s.blocked ++ [⟨session, s.now + milliseconds timeout⟩] }

def finishBlocking (i : ℕ) (blocked : Blocked) (s : State) : State :=
  { s with
    sendAndBlockAnswers := s.sendAndBlockAnswers.erase (fake blocked.session)
    blocked := s.blocked.eraseIdx i
    returned := s.returned ++
      [⟨blocked.session, (s.sendAndBlockAnswers.lookup (fake blocked.session)).join⟩] }

/-- Requests go to the stubs. A message that a call waits for does not go through the main loop. -/
def receive (message : MessageObject) (mainLoop : Bool) (s : State) : State :=
  match message.message.messageType with
  | .request | .requestNoReturn => s
  | .notification =>
    if mainLoop then { s with queue := s.queue ++ [message] }
    else { s with handling := s.handling ++ [message] }
  | .response | .error =>
    if mainLoop ∧ fake message.session ∉ s.sendAndBlockAnswers then
      { s with queue := s.queue ++ [message] }
    else { s with handling := s.handling ++ [message] }

def sessionOf (message : MessageObject) (s : State) : FakeSessionId × State :=
  if message.session = 0 then
    match s.errorResponses.lookup message with
    | some session => (session, { s with errorResponses := s.errorResponses.erase message })
    | none => (0, s)
  else (fake message.session, s)

def handleProxyReceive (message : MessageObject) (s : State) : State :=
  let (sessionId, s) := sessionOf message s
  if message.message.messageType = .notification then s
  else if sessionId ∈ s.sendAndBlockAnswers then
    { s with sendAndBlockAnswers := s.sendAndBlockAnswers.insert sessionId (some message) }
  else
    match s.asyncAnswers.lookup sessionId with
    | some entry =>
      { s with
        asyncAnswers := s.asyncAnswers.erase sessionId
        invoked := s.invoked ++ [⟨entry.handler, replyStatus message.message.returnCode, message⟩] }
    | none =>
      match s.asyncTimeouts.lookup sessionId with
      | some entry =>
        { s with
          asyncTimeouts := s.asyncTimeouts.erase sessionId
          invoked := s.invoked ++ [⟨entry.handler, .remoteError, message⟩] }
      | none => s

def warned (now : Time) (entry : Entry) : Entry :=
  if entry.timeoutTime < now ∧ entry.warnThreshold ≠ 0 then
    { entry with
      timeoutTime := entry.timeoutTime + milliseconds entry.warnThreshold
      warnThreshold := 0 }
  else entry

def isExpired (now : Time) (entry : Entry) : Bool := entry.timeoutTime < now ∧ entry.warnThreshold = 0

def cleanup (now : Time) (s : State) : State :=
  let asyncAnswers := Tables.map (warned now) s.asyncAnswers
  let asyncAnswersToProcess := Tables.filter (fun _ entry => isExpired now entry) asyncAnswers
  { s with
    asyncAnswers := Tables.filter (fun _ entry => !isExpired now entry) asyncAnswers
    workers := s.workers ++ [⟨true, asyncAnswersToProcess, none⟩]
    expired := s.expired ++ asyncAnswersToProcess.entries.map fun x => ⟨x.2.handler, now⟩ }

def isFor (service : ServiceId) (instance_ : InstanceId) (entry : Entry) : Bool :=
  service = entry.message.message.service ∧ instance_ = entry.message.message.instance_

def cancelAsyncAnswers (service : ServiceId) (instance_ : InstanceId) (s : State) : State :=
  { s with
    asyncAnswers := Tables.filter (fun _ entry => !isFor service instance_ entry) s.asyncAnswers
    workers := s.workers ++
      [⟨false, Tables.filter (fun _ entry => isFor service instance_ entry) s.asyncAnswers, none⟩] }

/-- One round of the loop over `asyncAnswersToProcess`, with a main loop up to `pushQueue`. After a
    handler has thrown, the cleanup unlocks a mutex that it does not hold, which throws as well. -/
def processAnswer (i : ℕ) (worker : Worker) (key : FakeSessionId) (entry : Entry) (mainLoop : Bool)
    (throws : Bool) (s : State) : State :=
  let (response, s) := createErrorResponse entry.message .timeout s
  let rest := worker.asyncAnswersToProcess.erase key
  if mainLoop then
    { s with
      asyncTimeouts := s.asyncTimeouts.insert key entry
      workers := s.workers.set i { worker with asyncAnswersToProcess := rest, toPush := some response } }
  else
    { s with
      invoked := s.invoked ++ [⟨entry.handler, .remoteError, response⟩]
      workers := s.workers.set i
        { worker with asyncAnswersToProcess := if worker.cleanup && throws then ∅ else rest } }

/-- The parameters of a step after the first are what is not up to the connection. The order in which
    messages are taken, and in which a worker takes its answers, is left open. -/
inductive Action
  | callMethodAsync (message : VsomeipMessage) (isAvailable : Bool) (timeout : ℤ) (isConnected : Bool)
      (session : Option SessionId)
  | availabilityCallback (i : ℕ) (isAvailable : Bool) (remaining : ℤ) (isConnected : Bool)
      (session : Option SessionId)
  | startBlocking (message : VsomeipMessage) (timeout : ℤ) (isConnected : Bool)
      (session : Option SessionId) (isAvailable : Bool)
  | finishBlocking (i : ℕ) (isAvailable : Bool)
  | deliver (message : VsomeipMessage)
  | receive (i : ℕ) (mainLoop : Bool)
  | dispatch (i : ℕ)
  | handleProxyReceive (i : ℕ)
  | cleanup (now : Time)
  | cancelAsyncAnswers (service : ServiceId) (instance_ : InstanceId)
  | processAnswer (i : ℕ) (key : FakeSessionId) (mainLoop : Bool) (throws : Bool)
  | pushQueue (i : ℕ)
  | elapse (time : ℕ)

def step (timeoutWarnThreshold : Option ℤ) (s : State) : Action → Option State
  | .callMethodAsync message isAvailable timeout isConnected session =>
    some (callMethodAsync timeoutWarnThreshold message isAvailable timeout isConnected session s)
  | .availabilityCallback i isAvailable remaining isConnected session =>
    s.timeouts[i]?.map fun waiting =>
      availabilityCallback timeoutWarnThreshold waiting isAvailable remaining isConnected session
        { s with timeouts := s.timeouts.eraseIdx i }
  | .startBlocking message timeout isConnected session isAvailable =>
    some (startBlocking message timeout isConnected session isAvailable s)
  | .finishBlocking i isAvailable =>
    s.blocked[i]?.bind fun blocked =>
      if (s.sendAndBlockAnswers.lookup (fake blocked.session)).join.isSome ∨ !isAvailable ∨
          blocked.elapsed < s.now then
        some (finishBlocking i blocked s)
      else none
  | .deliver message =>
    some { s with
      objects := s.objects + 1
      arriving := s.arriving ++ [⟨s.objects, none, message⟩] }
  | .receive i mainLoop =>
    s.arriving[i]?.map fun message =>
      receive message mainLoop { s with arriving := s.arriving.eraseIdx i }
  | .dispatch i =>
    s.queue[i]?.map fun message =>
      { s with queue := s.queue.eraseIdx i, handling := s.handling ++ [message] }
  | .handleProxyReceive i =>
    s.handling[i]?.map fun message =>
      handleProxyReceive message { s with handling := s.handling.eraseIdx i }
  | .cleanup now => if now ≤ s.now then some (cleanup now s) else none
  | .cancelAsyncAnswers service instance_ => some (cancelAsyncAnswers service instance_ s)
  | .processAnswer i key mainLoop throws =>
    s.workers[i]?.bind fun worker =>
      if worker.toPush.isSome then none
      else (worker.asyncAnswersToProcess.lookup key).map fun entry =>
        processAnswer i worker key entry mainLoop throws s
  | .pushQueue i =>
    s.workers[i]?.bind fun worker =>
      worker.toPush.map fun message =>
        { s with
          queue := s.queue ++ [message]
          workers := s.workers.set i { worker with toPush := none } }
  | .elapse time => some { s with now := s.now + time }

end AsyncAnswers

end SomeIPRuntime
