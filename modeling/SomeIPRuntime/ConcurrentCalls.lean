import SomeIPRuntime.ConnectionMessages
import SomeIPRuntime.ServiceAnswers

set_option autoImplicit false

/-!
# Calls of a client and replies of a service

The connection of a client and the stub of a service, between them a network that keeps
every message: it may bring a request or a reply late, again, or never. Calls are
asynchronous or block. What a call ends with is what the stub function gives for the
arguments of this call, or no success.
-/
namespace SomeIPRuntime.ConcurrentCalls
open Bits Serialization MethodCalls StubDispatchers TypedValues RemoteCalls StepSystems
open AsyncAnswers (Distinct Fresh Unused IsReply Stores)

section Systems
variable {parts : (type : DataType) → type.Value → (part : DataType) → part.Value}
  {uninitialised : ℕ × ℕ} {fuel : ℕ} (service : Service parts uninitialised fuel) (client : ClientId)

/-- A call of a method of the service: what is written for it comes back from where it is written. -/
structure Call where
  address : Address
  id : MethodId
  method : RemoteMethod
  provided : service.methods id = some method
  arguments : method.inTypes.Values
  sendable : method.inTypes.SendableFields method.isLittleEndian arguments 0
  fits : method.inTypes.longestField arguments ≤ fuel
  short : ∀ handed, writeArguments method.isLittleEndian (method.inTypes.arguments arguments)
    (.createMethodCall address id) = .ok (some handed) → Short handed
  returnsSendable :
    method.outTypes.SendableFields method.isLittleEndian (method.stubFunctor client arguments) 0
  returnsFit : method.outTypes.longestField (method.stubFunctor client arguments) ≤ fuel
  returnsShort : ∀ request handed, writeArguments method.isLittleEndian
    (method.outTypes.arguments (method.stubFunctor client arguments)) request = .ok (some handed) → Short handed

variable {service client}

def Call.methodCall (call : Call service client) : VsomeipMessage := .createMethodCall call.address call.id

def Call.inArgs (call : Call service client) : List (OutputStream.Write Unit) :=
  call.method.inTypes.arguments call.arguments

def Call.outArgs (call : Call service client) : OutArgs call.method.outTypes.Values :=
  call.method.outTypes.outArgs parts uninitialised fuel

def Call.results (call : Call service client) : call.method.outTypes.Values :=
  call.method.stubFunctor client call.arguments

def Call.Written (call : Call service client) (message : VsomeipMessage) : Prop :=
  ∃ handed, writeArguments call.method.isLittleEndian call.inArgs call.methodCall = .ok (some handed) ∧
    handed.message = message

variable (service client)

/-- The connection of the client, the stub, the requests on their way to the service, and those that
    it has received. `calls` are the asynchronous calls by their handlers, where they are calls of the
    service, and `asked` has the calls that requests with a session have been sent for. -/
structure State where
  connection : AsyncAnswers.State
  stub : StubReplies.State
  requests : List VsomeipMessage
  received : List VsomeipMessage
  calls : List (Option (Call service client))
  asked : SessionId → Option (Call service client)

def initial : State service client := ⟨AsyncAnswers.initial, StubReplies.initial, [], [], [], fun _ => none⟩

inductive Action
  | callMethodAsync (call : Call service client) (isAvailable : Bool) (timeout : ℤ) (isConnected : Bool)
      (session : Option SessionId)
  | callMethodWithReply (call : Call service client) (timeout : ℤ) (isConnected : Bool)
      (session : Option SessionId) (isAvailable : Bool)
  /-- Whatever else the connection does, also for other services. -/
  | connection (action : AsyncAnswers.Action)
  | stub (action : StubReplies.Action)

variable {service client}

def State.send (call : Call service client) (message : VsomeipMessage) (session : Option SessionId)
    (s : State service client) : State service client :=
  match session with
  | some session =>
    { s with
      requests := stamped client session message :: s.requests
      asked := Function.update s.asked session (some call) }
  | none => s

/-- What a step of the connection `s.connection` means for the calls. -/
def State.record (action : AsyncAnswers.Action) (s : State service client) (t : AsyncAnswers.State) :
    State service client :=
  match action with
  | .callMethodAsync .. => { s with connection := t, calls := s.calls ++ [none] }
  | .availabilityCallback i isAvailable _ isConnected session =>
    match s.connection.timeouts[i]? with
    | some waiting =>
      match s.calls[waiting.handler]? with
      | some (some call) =>
        { s with connection := t }.send call waiting.message.message
          (if isAvailable && isConnected then session else none)
      | _ => { s with connection := t }
    | none => { s with connection := t }
  | _ => { s with connection := t }

def step (timeoutWarnThreshold : Option ℤ) (s : State service client) :
    Action service client → Option (State service client)
  | .callMethodAsync call isAvailable timeout isConnected session =>
    match MethodCalls.callMethodAsync call.methodCall call.method.isLittleEndian call.inArgs with
    | .ok (some handed, _) =>
      (AsyncAnswers.step timeoutWarnThreshold s.connection
        (.callMethodAsync handed.message isAvailable timeout isConnected session)).map fun t =>
          { s with connection := t, calls := s.calls ++ [some call] }.send call handed.message
            (if isAvailable && isConnected then session else none)
    | .ok (none, _) => some s
    | .error _ => none
  | .callMethodWithReply call timeout isConnected session isAvailable =>
    match writeArguments call.method.isLittleEndian call.inArgs call.methodCall with
    | .ok (some handed) =>
      (AsyncAnswers.step timeoutWarnThreshold s.connection
        (.startBlocking handed.message timeout isConnected session isAvailable)).map fun t =>
          { s with connection := t }.send call handed.message (if isConnected then session else none)
    | .ok none => some s
    | .error _ => none
  | .connection action => (AsyncAnswers.step timeoutWarnThreshold s.connection action).map (s.record action)
  | .stub action =>
    (StubReplies.step s.stub action).map fun t =>
      { s with stub := t, received := s.received ++ action.message.toList }

def Arrives (s : State service client) (message : VsomeipMessage) : Prop :=
  (∃ number, (number, message) ∈ s.stub.sent ∧ message.client = client) ∨
    message.session ∈ s.connection.sessions ∧ s.asked message.session = none

/-- vsomeip gives all requests different sessions, makes up error messages but no responses, and
    brings the service nothing that the client has not sent. The service does what it should. -/
def Fair (s : State service client) : Action service client → Prop
  | .callMethodAsync _ isAvailable _ isConnected session =>
    isAvailable = true → isConnected = true → Fresh s.connection session
  | .callMethodWithReply _ _ isConnected session _ => isConnected = true → Fresh s.connection session
  | .connection action => Distinct Unused s.connection action ∧
      ∀ message, action = .deliver message → message.messageType = .response → Arrives s message
  | .stub action => StubReplies.Counting s.stub action ∧ service.Performs s.received s.stub action ∧
      ∀ request ∈ action.message, request.client = client → request ∈ s.requests

def Call.Ends (call : Call service client) (formers : call.method.outTypes.Values) (callStatus : CallStatus)
    (values : call.method.outTypes.Values) : Prop :=
  if callStatus = .success then values = call.results else values = formers

variable {s t : State service client}

def Call.ComesBack (call : Call service client) (message : VsomeipMessage) : Prop :=
  message.isValidCrc = true ∧ ∀ formers,
    readArguments call.method.isLittleEndian call.outArgs formers message = .ok (true, call.results)

/-- A response has a session that was given, and the results of the call that it was given for. -/
def Right (s : State service client) (message : VsomeipMessage) : Prop :=
  message.messageType = .response → message.session ∈ s.connection.sessions ∧
    ∀ call, s.asked message.session = some call → call.ComesBack message

theorem right_error (message : VsomeipMessage) (h : message.messageType = .error) : Right s message := by
  intro hresponse
  cases h.symm.trans hresponse

def Call.Requests (call : Call service client) (request : VsomeipMessage) : Prop :=
  ∃ message, call.Written message ∧ request = stamped client request.session message

/-- The service reads the arguments of the call, and what it answers are its results. -/
theorem Call.Requests.comesBack {call : Call service client} {request answer : VsomeipMessage}
    (h : call.Requests request) (hanswer : service.Answers request answer)
    (hresponse : answer.messageType = .response) : call.ComesBack answer := by
  rcases h with ⟨message, ⟨handed, hwritten, hmessage⟩, hrequest⟩
  have hheader := writeArguments_header hwritten
  rw [hmessage] at hheader
  have hid : request.method = call.id := by
    rw [hrequest, hheader]
    rfl
  have hclient : request.client = client := by rw [hrequest]; rfl
  have hread : call.method.readsFrom parts uninitialised fuel request = .ok (true, call.arguments) := by
    refine call.method.inTypes.arguments_arrive call.arguments call.method.inTypes.initials call.sendable call.fits
      hwritten (call.short handed hwritten) ?_
    rw [hrequest, hmessage]
    rfl
  rcases hanswer.results hresponse call.method call.arguments (hid.symm ▸ call.provided) hread with
    ⟨reply, hreply, rfl⟩
  rw [hclient] at hreply
  refine ⟨?_, fun formers => ?_⟩
  · rw [writeArguments_header hreply]
    rfl
  · exact call.method.outTypes.arguments_arrive call.results formers call.returnsSendable call.returnsFit hreply
      (call.returnsShort _ reply hreply) rfl

/-- The callback of a call gets its results from a response, and nothing from an error message. -/
theorem Call.ComesBack.reply {call : Call service client} {message : VsomeipMessage}
    (hreply : IsReply message) (h : message.messageType = .response → call.ComesBack message)
    (callStatus : CallStatus) (formers : call.method.outTypes.Values) :
    ∃ status values, handleMessageReply call.method.isLittleEndian call.outArgs formers callStatus message =
      .ok (status, values) ∧ call.Ends formers status values := by
  unfold handleMessageReply
  by_cases hstatus : callStatus = .success
  · rw [if_pos hstatus]
    rcases hreply with hresponse | herror
    · have hback := h hresponse
      have hisError : message.isErrorType = false := by
        unfold VsomeipMessage.isErrorType
        rw [hresponse]
        rfl
      rw [hisError, hback.1, hback.2 formers]
      exact ⟨.success, call.results, rfl, rfl⟩
    · have hisError : message.isErrorType = true := decide_eq_true herror
      rw [hisError]
      exact ⟨.remoteError, formers, rfl, rfl⟩
  · rw [if_neg hstatus]
    refine ⟨callStatus, formers, rfl, ?_⟩
    unfold Call.Ends
    rw [if_neg hstatus]

/-- So does a blocking call, which gets no answer if there is none in time. -/
theorem Call.ComesBack.answer {call : Call service client} {answer : Option VsomeipMessage}
    (hreply : ∀ message ∈ answer, IsReply message)
    (h : ∀ message ∈ answer, message.messageType = .response → call.ComesBack message)
    (formers : call.method.outTypes.Values) :
    ∃ status values, takeReply call.method.isLittleEndian call.outArgs formers answer = .ok (status, values) ∧
      call.Ends formers status values := by
  cases answer with
  | none => exact ⟨.remoteError, formers, rfl, rfl⟩
  | some message =>
    rcases hreply message rfl with hresponse | herror
    · rw [takeReply_response hresponse]
      exact Call.ComesBack.reply (Or.inl hresponse) (h message rfl) .success formers
    · rw [takeReply_error herror]
      exact ⟨.remoteError, formers, rfl, rfl⟩

/-- A call that waits for the service has its request, and one that is stored has asked with the
    session that it is stored with. -/
structure Asks (s : State service client) : Prop where
  numbered : s.calls.length = s.connection.handlers
  waits : ∀ waiting ∈ s.connection.timeouts, ∀ call, s.calls[waiting.handler]? = some (some call) →
    call.Written waiting.message.message
  stored : ∀ handler stored call, s.connection.stored handler = some stored →
    s.calls[handler]? = some (some call) → stored.message.session ≠ 0 → s.asked stored.message.session = some call
  asked : ∀ session call, s.asked session = some call →
    session ∈ s.connection.sessions ∧ ∃ message, call.Written message
  requested : ∀ request ∈ s.requests, ∃ call, s.asked request.session = some call ∧ call.Requests request

structure Grows (s t : State service client) : Prop where
  sessions : ∀ session ∈ s.connection.sessions, session ∈ t.connection.sessions
  asked : ∀ session ∈ s.connection.sessions, t.asked session = s.asked session
  requests : ∀ request ∈ s.requests, request ∈ t.requests
  stub : t.stub = s.stub
  received : t.received = s.received

theorem Right.grows {message : VsomeipMessage} (h : Right s message) (hgrows : Grows s t) : Right t message := by
  intro hresponse
  rcases h hresponse with ⟨hsession, hback⟩
  refine ⟨hgrows.sessions _ hsession, fun call hasked => hback call ?_⟩
  rw [← hgrows.asked _ hsession]
  exact hasked

section Sending
variable {u : AsyncAnswers.State} {handler : ℕ} {session : Option SessionId} {message : VsomeipMessage}

theorem Asks.stores (h : Asks s) (hstores : Stores handler session s.connection u)
    (hforeign : ∀ call, s.calls[handler]? = some (some call) → session = none) :
    Asks { s with connection := u } where
  numbered := h.numbered.trans hstores.handlers.symm
  waits waiting hwaiting := h.waits waiting (hstores.timeouts waiting hwaiting)
  stored other stored call hstored hcall hsession := by
    rcases hstores.stored other stored hstored with hold | ⟨hother, hzero | hgiven⟩
    · exact h.stored other stored call hold hcall hsession
    · exact absurd hzero hsession
    · rw [hother] at hcall
      rw [hforeign call hcall] at hgiven
      cases hgiven
  asked given call hasked := (h.asked given call hasked).imp_left (hstores.sessions given)
  requested := h.requested

theorem grows_stores (hstores : Stores handler session s.connection u) : Grows s { s with connection := u } :=
  ⟨hstores.sessions, fun _ _ => rfl, fun _ h => h, rfl, rfl⟩

/-- The request of a call is sent with a session that has not been given. -/
theorem Asks.sends (h : Asks s) (hstores : Stores handler session s.connection u) {call : Call service client}
    (hmine : ∀ other, s.calls[handler]? = some (some other) → other = call) (hwritten : call.Written message)
    (hfresh : ∀ given ∈ session, given ∉ s.connection.sessions) :
    Asks ({ s with connection := u }.send call message session) := by
  cases session with
  | none => exact h.stores hstores fun _ _ => rfl
  | some given =>
    have hnew := hfresh given rfl
    have hold : ∀ other ∈ s.connection.sessions, Function.update s.asked given (some call) other = s.asked other := by
      intro other hother
      exact Function.update_of_ne (fun (heq : other = given) => hnew (heq ▸ hother)) _ _
    refine ⟨h.numbered.trans hstores.handlers.symm,
      fun waiting hwaiting => h.waits waiting (hstores.timeouts waiting hwaiting),
      fun other stored own hstored hcall hsession => ?_, fun other own hasked => ?_, fun request hrequest => ?_⟩
    · rcases hstores.stored other stored hstored with hbefore | ⟨hother, hzero | hgiven⟩
      · have hasked := h.stored other stored own hbefore hcall hsession
        exact (hold _ (h.asked _ own hasked).1).trans hasked
      · exact absurd hzero hsession
      · rw [hother] at hcall
        rw [hmine own hcall, ← Option.some.inj hgiven]
        exact Function.update_self _ _ _
    · by_cases hother : other = given
      · rw [hother] at hasked ⊢
        change Function.update s.asked given (some call) given = some own at hasked
        rw [Function.update_self] at hasked
        cases hasked
        exact ⟨hstores.given given rfl, message, hwritten⟩
      · change Function.update s.asked given (some call) other = some own at hasked
        rw [Function.update_of_ne hother] at hasked
        exact (h.asked other own hasked).imp_left (hstores.sessions other)
    · rcases List.mem_cons.1 hrequest with rfl | hrequest
      · exact ⟨call, Function.update_self _ _ _, message, hwritten, rfl⟩
      · rcases h.requested request hrequest with ⟨own, hasked, hrequests⟩
        exact ⟨own, (hold _ (h.asked _ own hasked).1).trans hasked, hrequests⟩

theorem grows_sends (hstores : Stores handler session s.connection u) (call : Call service client)
    (message : VsomeipMessage) (hfresh : ∀ given ∈ session, given ∉ s.connection.sessions) :
    Grows s ({ s with connection := u }.send call message session) := by
  cases session with
  | none => exact grows_stores hstores
  | some given =>
    refine ⟨hstores.sessions, fun other hother => ?_, fun _ h => List.mem_cons_of_mem _ h, rfl, rfl⟩
    exact Function.update_of_ne (fun (heq : other = given) => hfresh given rfl (heq ▸ hother)) _ _

end Sending

def State.newCall (call : Option (Call service client)) (s : State service client) : State service client :=
  { s with
    connection := { s.connection with
      objects := s.connection.objects + 1
      handlers := s.connection.handlers + 1 }
    calls := s.calls ++ [call] }

theorem Asks.newCall (h : Asks s) (hgood : AsyncAnswers.Good s.connection) (call : Option (Call service client)) :
    Asks (s.newCall call) where
  numbered := by
    change (s.calls ++ [call]).length = s.connection.handlers + 1
    rw [List.length_append, h.numbered]
    rfl
  waits waiting hwaiting own hcall := by
    have hhandler : waiting.handler ∈ AsyncAnswers.waiting s.connection := List.mem_map.2 ⟨waiting, hwaiting, rfl⟩
    have hlt := hgood.owned.old _ (Multiset.mem_of_le (AsyncAnswers.waiting_le s.connection) hhandler)
    change (s.calls ++ [call])[waiting.handler]? = some (some own) at hcall
    rw [List.getElem?_append_left (h.numbered.symm ▸ hlt)] at hcall
    exact h.waits waiting hwaiting own hcall
  stored handler stored own hstored hcall hsession := by
    have hlt := (hgood.sound.unstored handler (Option.isSome_iff_exists.2 ⟨stored, hstored⟩)).1
    change (s.calls ++ [call])[handler]? = some (some own) at hcall
    rw [List.getElem?_append_left (h.numbered.symm ▸ hlt)] at hcall
    exact h.stored handler stored own hstored hcall hsession
  asked := h.asked
  requested := h.requested

theorem Asks.last (h : Asks s) (call : Option (Call service client)) :
    (s.calls ++ [call])[s.connection.handlers]? = some call := by
  rw [← h.numbered]
  exact List.getElem?_concat_length

theorem Asks.waiting (h : Asks s) {waiting : AsyncAnswers.Waiting}
    (hwritten : ∀ call, s.calls[waiting.handler]? = some (some call) → call.Written waiting.message.message) :
    Asks { s with connection := { s.connection with timeouts := s.connection.timeouts ++ [waiting] } } where
  numbered := h.numbered
  waits := List.forall_mem_append.2 ⟨h.waits, List.forall_mem_singleton.2 hwritten⟩
  stored := h.stored
  asked := h.asked
  requested := h.requested

theorem fresh_given {connection : AsyncAnswers.State} {isSent : Bool} {session : Option SessionId}
    (h : isSent = true → Fresh connection session) :
    ∀ given ∈ (if isSent then session else none), given ∉ connection.sessions := by
  cases isSent with
  | false =>
    intro given hgiven
    cases hgiven
  | true =>
    rcases h rfl with ⟨given, hgiven, -, hnew⟩
    intro other hother
    cases hgiven
    cases hother
    exact hnew

theorem asks_callMethodAsync (h : Asks s) (hgood : AsyncAnswers.Good s.connection) (timeoutWarnThreshold : Option ℤ)
    {call : Call service client} {message : VsomeipMessage} (hwritten : call.Written message) {isAvailable : Bool}
    (timeout : ℤ) {isConnected : Bool} {session : Option SessionId}
    (hfresh : isAvailable = true → isConnected = true → Fresh s.connection session) :
    let t := { s with
      connection := AsyncAnswers.callMethodAsync timeoutWarnThreshold message isAvailable timeout isConnected session
        s.connection
      calls := s.calls ++ [some call] }.send call message (if isAvailable && isConnected then session else none)
    Asks t ∧ Grows s t := by
  have hnew := h.newCall hgood (some call)
  have hlast := h.last (some call)
  unfold AsyncAnswers.callMethodAsync
  cases isAvailable with
  | false =>
    refine ⟨hnew.waiting fun other hother => ?_, fun _ h => h, fun _ _ => rfl, fun _ h => h, rfl, rfl⟩
    cases hlast.symm.trans hother
    exact hwritten
  | true =>
    have hstores := AsyncAnswers.sendMessageWithReplyAsync_stores timeoutWarnThreshold
      ⟨s.connection.objects, some s.connection.handlers, message⟩ s.connection.handlers timeout
      (s := (s.newCall (some call)).connection) (hfresh rfl)
    have hgiven := fresh_given (hfresh rfl)
    refine ⟨hnew.sends hstores (fun other hother => ?_) hwritten hgiven, ?_⟩
    · cases hlast.symm.trans hother
      rfl
    · have hgrows := grows_sends (s := s.newCall (some call)) hstores call message hgiven
      exact ⟨hgrows.sessions, hgrows.asked, hgrows.requests, hgrows.stub, hgrows.received⟩

theorem asks_foreignCall (h : Asks s) (hgood : AsyncAnswers.Good s.connection) (timeoutWarnThreshold : Option ℤ)
    (message : VsomeipMessage) {isAvailable : Bool} (timeout : ℤ) {isConnected : Bool} {session : Option SessionId}
    (hfresh : isAvailable = true → isConnected = true → Fresh s.connection session) :
    let t := { s with
      connection := AsyncAnswers.callMethodAsync timeoutWarnThreshold message isAvailable timeout isConnected session
        s.connection
      calls := s.calls ++ [none] }
    Asks t ∧ Grows s t := by
  have hnew := h.newCall hgood none
  have hlast := h.last none
  unfold AsyncAnswers.callMethodAsync
  cases isAvailable with
  | false =>
    refine ⟨hnew.waiting fun other hother => ?_, fun _ h => h, fun _ _ => rfl, fun _ h => h, rfl, rfl⟩
    cases hlast.symm.trans hother
  | true =>
    have hstores := AsyncAnswers.sendMessageWithReplyAsync_stores timeoutWarnThreshold
      ⟨s.connection.objects, some s.connection.handlers, message⟩ s.connection.handlers timeout
      (s := (s.newCall none).connection) (hfresh rfl)
    refine ⟨hnew.stores hstores fun other hother => ?_, ?_⟩
    · cases hlast.symm.trans hother
    · have hgrows := grows_stores (s := s.newCall none) hstores
      exact ⟨hgrows.sessions, hgrows.asked, hgrows.requests, hgrows.stub, hgrows.received⟩

section Callbacks
variable {i : ℕ} {waiting : AsyncAnswers.Waiting} {isAvailable isConnected : Bool} (remaining : ℤ)
  {session : Option SessionId} (hwaiting : s.connection.timeouts[i]? = some waiting)
include hwaiting

theorem record_call {call : Call service client} (hcall : s.calls[waiting.handler]? = some (some call))
    (t : AsyncAnswers.State) :
    s.record (.availabilityCallback i isAvailable remaining isConnected session) t =
      { s with connection := t }.send call waiting.message.message
        (if isAvailable && isConnected then session else none) := by
  unfold State.record
  dsimp only
  rw [hwaiting]
  dsimp only
  rw [hcall]

theorem record_foreign (hforeign : ∀ call, s.calls[waiting.handler]? ≠ some (some call)) (t : AsyncAnswers.State) :
    s.record (.availabilityCallback i isAvailable remaining isConnected session) t = { s with connection := t } := by
  unfold State.record
  dsimp only
  rw [hwaiting]
  dsimp only
  split
  · rename_i call hcall
    exact absurd hcall (hforeign call)
  · rfl

/-- A call that has waited sends its request, or is answered with an error message. -/
theorem asks_availabilityCallback (h : Asks s) (timeoutWarnThreshold : Option ℤ)
    (hfresh : isAvailable = true → isConnected = true → Fresh s.connection session) :
    let t := s.record (.availabilityCallback i isAvailable remaining isConnected session)
      (AsyncAnswers.availabilityCallback timeoutWarnThreshold waiting isAvailable remaining isConnected session
        { s.connection with timeouts := s.connection.timeouts.eraseIdx i })
    Asks t ∧ Grows s t := by
  have hstores := AsyncAnswers.availabilityCallback_stores timeoutWarnThreshold waiting i remaining hfresh
  have hwritten := h.waits waiting (List.mem_of_getElem? hwaiting)
  by_cases hcall : ∃ call, s.calls[waiting.handler]? = some (some call)
  · rcases hcall with ⟨call, hcall⟩
    rw [record_call remaining hwaiting hcall]
    cases isAvailable with
    | true =>
      have hgiven := fresh_given (hfresh rfl)
      refine ⟨h.sends hstores (fun other hother => ?_) (hwritten call hcall) hgiven, grows_sends hstores call _ hgiven⟩
      cases hcall.symm.trans hother
      rfl
    | false =>
      rcases hwritten call hcall with ⟨handed, hhanded, hmessage⟩
      have hsession : waiting.message.session = 0 := by
        unfold AsyncAnswers.MessageObject.session
        rw [← hmessage, writeArguments_header hhanded]
        rfl
      exact ⟨h.stores hstores fun _ _ => if_pos hsession, grows_stores hstores⟩
  · have hforeign : ∀ call, s.calls[waiting.handler]? ≠ some (some call) := fun call h => hcall ⟨call, h⟩
    rw [record_foreign remaining hwaiting hforeign]
    exact ⟨h.stores hstores fun call h => absurd h (hforeign call), grows_stores hstores⟩

end Callbacks

theorem asks_callMethodWithReply (h : Asks s) {call : Call service client} {message : VsomeipMessage}
    (hwritten : call.Written message) (timeout : ℤ) {isConnected : Bool} {session : Option SessionId}
    (hfresh : isConnected = true → Fresh s.connection session) (isAvailable : Bool) :
    let t := { s with
      connection := AsyncAnswers.startBlocking message timeout isConnected session isAvailable s.connection }.send
        call message (if isConnected then session else none)
    Asks t ∧ Grows s t := by
  have hstores := AsyncAnswers.startBlocking_stores s.connection.handlers message timeout hfresh isAvailable
  have hgiven := fresh_given hfresh
  have hnone : s.calls[s.connection.handlers]? = none := List.getElem?_eq_none h.numbered.le
  refine ⟨h.sends hstores (fun other hother => ?_) hwritten hgiven, grows_sends hstores call message hgiven⟩
  cases hnone.symm.trans hother

theorem asks_foreignBlocking (h : Asks s) (message : VsomeipMessage) (timeout : ℤ) {isConnected : Bool}
    {session : Option SessionId} (hfresh : isConnected = true → Fresh s.connection session) (isAvailable : Bool) :
    let t := { s with
      connection := AsyncAnswers.startBlocking message timeout isConnected session isAvailable s.connection }
    Asks t ∧ Grows s t := by
  have hstores := AsyncAnswers.startBlocking_stores s.connection.handlers message timeout hfresh isAvailable
  have hnone : s.calls[s.connection.handlers]? = none := List.getElem?_eq_none h.numbered.le
  exact ⟨h.stores hstores fun other hother => (by cases hnone.symm.trans hother), grows_stores hstores⟩

structure Sound (s : State service client) : Prop where
  good : AsyncAnswers.Good s.connection
  asks : Asks s
  replies : StubReplies.Corresponds service.Answers s.received s.stub
  received : ∀ request ∈ s.received, request.client = client → request ∈ s.requests
  passes : AsyncAnswers.Passes (Right s) s.connection

theorem initial_sound : Sound (initial service client) where
  good := AsyncAnswers.initial_good
  asks :=
    { numbered := rfl
      waits := fun _ h => by cases h
      stored := fun _ _ _ h => by cases h
      asked := fun _ _ h => by cases h
      requested := fun _ h => by cases h }
  replies := StubReplies.initial_corresponds
  received _ h := by cases h
  passes := AsyncAnswers.initial_passes

/-- A response of the service to the client has the results of the call that asked for it. -/
theorem Sound.arrives (h : Sound s) {message : VsomeipMessage} (harrives : Arrives s message) : Right s message := by
  intro hresponse
  rcases harrives with ⟨number, hsent, hclient⟩ | ⟨hgiven, hnone⟩
  · rcases h.replies.sent number message hsent with ⟨request, hrequest, hanswers⟩
    have hsame := hanswers.isAnswer.same
    rcases h.asks.requested request (h.received request (List.mem_of_getElem? hrequest) (hsame.client ▸ hclient))
      with ⟨call, hasked, hrequests⟩
    rw [hsame.session]
    refine ⟨(h.asks.asked _ call hasked).1, fun other hother => ?_⟩
    cases hasked.symm.trans hother
    exact hrequests.comesBack hanswers hresponse
  · refine ⟨hgiven, fun call hasked => ?_⟩
    cases hnone.symm.trans hasked

/-- A step of the connection, with what it means for the calls. -/
theorem Sound.connected (h : Sound s) (timeoutWarnThreshold : Option ℤ) (action : AsyncAnswers.Action)
    (hstep : AsyncAnswers.step timeoutWarnThreshold s.connection action = some t.connection)
    (hdistinct : Distinct Unused s.connection action)
    (harrives : ∀ message, action = .deliver message → message.messageType = .response → Arrives s message)
    (hasks : Asks t) (hgrows : Grows s t) : Sound t where
  good := AsyncAnswers.step_good h.good hdistinct hstep
  asks := hasks
  replies := hgrows.stub ▸ hgrows.received ▸ h.replies
  received request hrequest hclient := hgrows.requests request (h.received request (hgrows.received ▸ hrequest) hclient)
  passes := by
    refine (AsyncAnswers.step_passes h.passes right_error (fun message haction => ?_) hstep).mono
      fun message hright => hright.grows hgrows
    intro hresponse
    exact h.arrives (harrives message haction hresponse) hresponse

theorem Sound.served (h : Sound s) {action : StubReplies.Action} {stub : StubReplies.State}
    (hstep : StubReplies.step s.stub action = some stub) (hcounting : StubReplies.Counting s.stub action)
    (hperforms : service.Performs s.received s.stub action)
    (hsent : ∀ request ∈ action.message, request.client = client → request ∈ s.requests) :
    Sound { s with stub := stub, received := s.received ++ action.message.toList } where
  good := h.good
  asks := ⟨h.asks.numbered, h.asks.waits, h.asks.stored, h.asks.asked, h.asks.requested⟩
  replies := StubReplies.step_corresponds h.replies hcounting (performs_truthful hperforms) hstep
  received request hrequest hclient := by
    rcases List.mem_append.1 hrequest with hrequest | hrequest
    · exact h.received request hrequest hclient
    · exact hsent request (Option.mem_toList.1 hrequest) hclient
  passes := h.passes

theorem callMethodAsync_written {message : VsomeipMessage} {isLittleEndian : Bool}
    {inArgs : List (OutputStream.Write Unit)} {handed : Handed} {status : Option CallStatus}
    (h : MethodCalls.callMethodAsync message isLittleEndian inArgs = .ok (some handed, status)) :
    writeArguments isLittleEndian inArgs message = .ok (some handed) := by
  unfold MethodCalls.callMethodAsync at h
  cases hwritten : writeArguments isLittleEndian inArgs message with
  | error halt =>
    rw [hwritten] at h
    cases h
  | ok written =>
    rw [hwritten] at h
    cases written with
    | none => cases h
    | some other =>
      cases h
      rfl

theorem send_connection (call : Call service client) (message : VsomeipMessage) (session : Option SessionId)
    (s : State service client) : (s.send call message session).connection = s.connection := by
  cases session <;> rfl

theorem record_connection (action : AsyncAnswers.Action) (s : State service client) (connection : AsyncAnswers.State) :
    (s.record action connection).connection = connection := by
  unfold State.record
  split
  · rfl
  · split
    · split
      · exact send_connection _ _ _ _
      · rfl
    · rfl
  · rfl

/-- A step of the connection that the calls of the service have no part in. -/
theorem Sound.elsewhere (h : Sound s) {timeoutWarnThreshold : Option ℤ} {action : AsyncAnswers.Action}
    {connection : AsyncAnswers.State} (hstep : AsyncAnswers.step timeoutWarnThreshold s.connection action = some connection)
    (hdistinct : Distinct Unused s.connection action)
    (harrives : ∀ message, action = .deliver message → message.messageType = .response → Arrives s message) :
    Sound (s.record action connection) := by
  have hquiet : AsyncAnswers.Quiet action → Sound { s with connection := connection } := by
    intro hquiet
    have hstores := AsyncAnswers.step_stores s.connection.handlers hquiet hstep
    exact h.connected timeoutWarnThreshold action hstep hdistinct harrives (h.asks.stores hstores fun _ _ => rfl) (grows_stores hstores)
  cases action with
  | callMethodAsync message isAvailable timeout isConnected session =>
    cases hstep
    have hasks := asks_foreignCall h.asks h.good timeoutWarnThreshold message timeout hdistinct
    exact h.connected timeoutWarnThreshold _ rfl hdistinct harrives hasks.1 hasks.2
  | startBlocking message timeout isConnected session isAvailable =>
    cases hstep
    have hasks := asks_foreignBlocking h.asks message timeout hdistinct isAvailable
    exact h.connected timeoutWarnThreshold _ rfl hdistinct harrives hasks.1 hasks.2
  | availabilityCallback i isAvailable remaining isConnected session =>
    rcases Option.map_eq_some_iff.1 hstep with ⟨waiting, hwaiting, heq⟩
    have hfresh : isAvailable = true → isConnected = true → Fresh s.connection session := by
      intro havailable hconnected
      have hgiven := hdistinct waiting hwaiting
      rw [if_pos havailable] at hgiven
      exact hgiven hconnected
    have hasks := asks_availabilityCallback remaining hwaiting h.asks timeoutWarnThreshold hfresh
    rw [heq] at hasks
    refine h.connected timeoutWarnThreshold _ ?_ hdistinct harrives hasks.1 hasks.2
    rw [record_connection]
    exact hstep
  | finishBlocking i isAvailable => exact hquiet trivial
  | deliver message => exact hquiet trivial
  | receive i mainLoop => exact hquiet trivial
  | dispatch i => exact hquiet trivial
  | handleProxyReceive i => exact hquiet trivial
  | cleanup now => exact hquiet trivial
  | cancelAsyncAnswers service instance_ => exact hquiet trivial
  | processAnswer i key mainLoop throws => exact hquiet trivial
  | pushQueue i => exact hquiet trivial
  | elapse time => exact hquiet trivial

theorem step_sound {timeoutWarnThreshold : Option ℤ} {a : Action service client} (h : Sound s) (hfair : Fair s a)
    (hstep : step timeoutWarnThreshold s a = some t) : Sound t := by
  cases a with
  | callMethodAsync call isAvailable timeout isConnected session =>
    unfold step at hstep
    dsimp only at hstep
    split at hstep
    · rename_i handed status hcalled
      cases hstep
      have hwritten := callMethodAsync_written hcalled
      have hasks := asks_callMethodAsync h.asks h.good timeoutWarnThreshold ⟨handed, hwritten, rfl⟩ timeout hfair
      refine h.connected timeoutWarnThreshold
        (.callMethodAsync handed.message isAvailable timeout isConnected session) ?_ hfair
        (fun message haction => by cases haction) hasks.1 hasks.2
      rw [send_connection]
      rfl
    · cases hstep
      exact h
    · cases hstep
  | callMethodWithReply call timeout isConnected session isAvailable =>
    unfold step at hstep
    dsimp only at hstep
    split at hstep
    · rename_i handed hwritten
      cases hstep
      have hasks := asks_callMethodWithReply h.asks ⟨handed, hwritten, rfl⟩ timeout hfair isAvailable
      refine h.connected timeoutWarnThreshold
        (.startBlocking handed.message timeout isConnected session isAvailable) ?_ hfair
        (fun message haction => by cases haction) hasks.1 hasks.2
      rw [send_connection]
      rfl
    · cases hstep
      exact h
    · cases hstep
  | connection action =>
    rcases Option.map_eq_some_iff.1 hstep with ⟨connection, hrun, rfl⟩
    exact h.elsewhere hrun hfair.1 hfair.2
  | stub action =>
    rcases Option.map_eq_some_iff.1 hstep with ⟨stub, hrun, rfl⟩
    exact h.served hrun hfair.1 hfair.2.1 hfair.2.2

/-- A callback is called at most once, and an asynchronous or a blocking call ends with its results,
    or without success. -/
structure OwnResults (s : State service client) : Prop where
  once : (s.connection.invoked.map AsyncAnswers.Invocation.handler).Nodup
  callbacks : ∀ invocation ∈ s.connection.invoked, ∀ call, s.calls[invocation.handler]? = some (some call) →
    ∀ formers, ∃ status values, handleMessageReply call.method.isLittleEndian call.outArgs formers
      invocation.callStatus invocation.message.message = .ok (status, values) ∧ call.Ends formers status values
  blocking : ∀ returned ∈ s.connection.returned, ∀ call, s.asked returned.session = some call →
    ∀ formers, ∃ called, callMethodWithReply true call.methodCall call.method.isLittleEndian call.inArgs
      (fun _ => returned.answer.map AsyncAnswers.MessageObject.message) call.outArgs formers = .ok called ∧
        call.Ends formers called.callStatus called.outArgs

/-- Whatever order calls, requests, replies and timeouts come in, a call of a service ends with the
    results of the stub function for the arguments of this call, or without success. -/
theorem calls_get_their_results {timeoutWarnThreshold : Option ℤ}
    (h : Reachable (step timeoutWarnThreshold) Fair (initial service client) s) : OwnResults s := by
  have hsound := h.invariant initial_sound fun _ _ _ => step_sound
  have hmatched := hsound.good.matched
  refine ⟨hmatched.once, fun invocation hinvoked call hcall formers => ?_,
    fun returned hreturned call hasked formers => ?_⟩
  · rcases hsound.passes.invoked invocation hinvoked with ⟨hright, hreply⟩
    refine Call.ComesBack.reply hreply (fun hresponse => ?_) invocation.callStatus formers
    rcases hmatched.own invocation hinvoked with ⟨stored, hstored, ⟨hne, hsession⟩ | ⟨-, herror⟩⟩
    · have hasked := hsound.asks.stored _ stored call hstored hcall (hsession ▸ hne)
      exact (hright hresponse).2 call (by rw [← hsession] at hasked; exact hasked)
    · cases hresponse.symm.trans (of_decide_eq_true herror)
  · rcases (hsound.asks.asked _ call hasked).2 with ⟨_, handed, hwritten, -⟩
    have hanswer : ∀ message ∈ returned.answer.map AsyncAnswers.MessageObject.message, IsReply message ∧
        (message.messageType = .response → call.ComesBack message) := by
      intro message hmessage
      rcases Option.map_eq_some_iff.1 hmessage with ⟨object, hobject, rfl⟩
      rcases hsound.passes.returned returned hreturned object hobject with ⟨hright, hreply⟩
      have hsession : object.message.session = returned.session := hmatched.returned returned hreturned object hobject
      exact ⟨hreply, fun hresponse => (hright hresponse).2 call (hsession.symm ▸ hasked)⟩
    rcases Call.ComesBack.answer (fun message hmessage => (hanswer message hmessage).1)
      (fun message hmessage => (hanswer message hmessage).2) formers with ⟨status, values, htaken, hends⟩
    refine ⟨⟨some handed, status, values⟩, ?_, hends⟩
    unfold callMethodWithReply
    rw [if_pos rfl, hwritten]
    change (takeReply _ _ _ (returned.answer.map AsyncAnswers.MessageObject.message) >>= _) = _
    rw [htaken]
    rfl

end Systems

def sumReads : List (InputStream.Read Unit) := inArgs initialParts (0, 0) 0 sum.inTypes sum.inTypes.initials

def sumService : Service initialParts (0, 0) 0 where
  helpers := [⟨true, fun id => if id = 0x21 then some (.methodWithReply 0 true false sumReads) else none⟩]
  methods id := if id = 0x21 then some sum else none
  provided id method h := by
    by_cases hid : id = 0x21
    · rw [if_pos hid] at h
      cases h
      exact ⟨_, .later 0, Or.inl ⟨rfl, if_pos hid⟩⟩
    · rw [if_neg hid] at h
      cases h

def sumCall : Call sumService 7 where
  address := ⟨0x1234, 1, 1, 0⟩
  id := 0x21
  method := sum
  provided := rfl
  arguments := sumArguments
  sendable := ⟨byte_survives 1, Or.inr (by decide), trivial⟩
  fits := by decide
  short := written_short rfl (by decide +kernel) _
  returnsSendable := ⟨byte_survives 6, trivial⟩
  returnsFit := by decide
  returnsShort := written_short rfl (by decide +kernel)

def laterArguments : sum.inTypes.Values := show BitVec 8 × List Byte × Unit from (4, [], ())

def laterCall : Call sumService 7 where
  address := ⟨0x1234, 1, 1, 0⟩
  id := 0x21
  method := sum
  provided := rfl
  arguments := laterArguments
  sendable := ⟨byte_survives 4, Or.inr (by decide), trivial⟩
  fits := by decide
  short := written_short rfl (by decide +kernel) _
  returnsSendable := ⟨byte_survives 4, trivial⟩
  returnsFit := by decide
  returnsShort := written_short rfl (by decide +kernel)

section Steps
variable {parts : (type : DataType) → type.Value → (part : DataType) → part.Value}
  {uninitialised : ℕ × ℕ} {fuel : ℕ} {service : Service parts uninitialised fuel} {client : ClientId}

theorem step_call {call : Call service client} {handed : Handed}
    (h : writeArguments call.method.isLittleEndian call.inArgs call.methodCall = .ok (some handed))
    (timeoutWarnThreshold : Option ℤ) (timeout : ℤ) (session : SessionId) (s : State service client) :
    step timeoutWarnThreshold s (.callMethodAsync call true timeout true (some session)) =
      some ({ s with
        connection := AsyncAnswers.callMethodAsync timeoutWarnThreshold handed.message true timeout true (some session)
          s.connection
        calls := s.calls ++ [some call] }.send call handed.message (some session)) := by
  have hcalled : MethodCalls.callMethodAsync call.methodCall call.method.isLittleEndian call.inArgs =
      .ok (some handed, none) := by
    unfold MethodCalls.callMethodAsync
    rw [h]
    rfl
  unfold step
  dsimp only
  rw [hcalled]
  rfl

theorem step_receive {method : RemoteMethod} {dispatcher : ℕ} {message : VsomeipMessage} {arguments : method.inTypes.Values}
    (hserves : Serves (.methodWithReply dispatcher true method.isLittleEndian
      (inArgs parts uninitialised fuel method.inTypes method.inTypes.initials)) message.method service.helpers)
    (hrequest : message.isRequestType = true)
    (hread : method.readsFrom parts uninitialised fuel message = .ok (true, arguments))
    (answer : StubAnswer) (timeoutWarnThreshold : Option ℤ) (s : State service client) :
    step timeoutWarnThreshold s (.stub (.receive service.helpers answer true true message)) =
      some { s with
        stub := StubReplies.receive ⟨[], some dispatcher⟩ message s.stub
        received := s.received ++ [message] } := by
  have hreads : readsArguments method.isLittleEndian
      (inArgs parts uninitialised fuel method.inTypes method.inTypes.initials) message = .ok true := by
    rw [readsArguments_inArgs]
    change Prod.fst <$> method.readsFrom parts uninitialised fuel message = _
    rw [hread]
    rfl
  have hdispatched : (Dispatcher.methodWithReply dispatcher true method.isLittleEndian
      (inArgs parts uninitialised fuel method.inTypes method.inTypes.initials)).dispatchMessage answer true message =
        .ok ⟨none, true, true⟩ := by
    change MethodWithReplyStubDispatcher.dispatchMessage _ _ _ message = _
    unfold MethodWithReplyStubDispatcher.dispatchMessage
    rw [hrequest, hreads]
    rfl
  have hhandled := RemoteCalls.served hserves hdispatched
  change (StubReplies.step s.stub (.receive service.helpers answer true true message)).map _ = _
  dsimp only [StubReplies.step]
  rw [hhandled]
  rfl

theorem step_reply {reply : StubReplies.Reply} {number : ℕ} {message : VsomeipMessage} {handed : Handed}
    {s : State service client} (hreply : s.stub.replies[0]? = some reply)
    (hfound : (s.stub.pending reply.dispatcher).lookup reply.call = some (number, message))
    (hwritten : writeArguments reply.isLittleEndian reply.outArgs message = .ok (some handed))
    (timeoutWarnThreshold : Option ℤ) :
    step timeoutWarnThreshold s (.stub (.sendReplyMessageHelper 0 true)) =
      some { s with
        stub := { StubReplies.finish reply { s.stub with replies := s.stub.replies.eraseIdx 0 } with
          sent := (number, handed.message.withoutReply) :: s.stub.sent }
        received := s.received ++ [] } := by
  change (Option.bind s.stub.replies[0]? fun reply => _).map _ = _
  rw [hreply]
  change (StubReplies.sendReplyMessageHelper reply true { s.stub with replies := s.stub.replies.eraseIdx 0 }).map _ = _
  unfold StubReplies.sendReplyMessageHelper
  dsimp only
  rw [hfound]
  dsimp only
  rw [hwritten]
  rfl

end Steps

/-- The second call is the first that the service receives, and its reply comes back. -/
theorem later_call_returns : ∃ s : State sumService 7, s.connection.invoked.map AsyncAnswers.Invocation.handler = [1] ∧
    s.calls = [some sumCall, some laterCall] ∧ OwnResults s := by
  have hfirst := @written_shortly (writeArguments false (sum.inTypes.arguments sumArguments)
    (.createMethodCall ⟨0x1234, 1, 1, 0⟩ 0x21)) (by decide +kernel)
  rcases hfirst with ⟨first, hfirst, -⟩
  have hlater := @written_shortly (writeArguments false (sum.inTypes.arguments laterArguments)
    (.createMethodCall ⟨0x1234, 1, 1, 0⟩ 0x21)) (by decide +kernel)
  rcases hlater with ⟨later, hlater, hlaterShort⟩
  have hreply := @written_shortly (writeArguments false (sum.outTypes.arguments (sum.stubFunctor 7 laterArguments))
    (stamped 7 2 (.createMethodCall ⟨0x1234, 1, 1, 0⟩ 0x21)).createResponseMessage) (by decide +kernel)
  rcases hreply with ⟨reply, hreply, -⟩
  have hread : sum.readsFrom initialParts (0, 0) 0 (stamped 7 2 later.message) = .ok (true, laterArguments) :=
    sum.inTypes.arguments_arrive laterArguments sum.inTypes.initials laterCall.sendable laterCall.fits hlater
      hlaterShort rfl
  have hfirstHeader := writeArguments_header hfirst
  have hlaterHeader := writeArguments_header hlater
  have hreplyHeader := writeArguments_header hreply
  generalize first.message.payload = firstPayload at hfirstHeader
  generalize later.message.payload = laterPayload at hlaterHeader
  generalize reply.message.payload = replyPayload at hreplyHeader
  have h0 : Reachable (step none) Fair (initial sumService 7) (initial sumService 7) := Reachable.start
  have h1 := h0.next (a := Action.callMethodAsync sumCall true 1000 true (some 1))
    (fun _ _ => ⟨1, rfl, by decide, List.not_mem_nil⟩) (step_call hfirst none 1000 1 _)
  have h2 := h1.next (a := Action.callMethodAsync laterCall true 1000 true (some 2))
    (fun _ _ => ⟨2, rfl, by decide, show (2 : SessionId) ∉ [1] by decide⟩) (step_call hlater none 1000 2 _)
  rw [hfirstHeader, hlaterHeader] at h2
  rw [hlaterHeader] at hread
  have h3 := h2.next (a := Action.stub (.receive sumService.helpers (sum.answer initialParts (0, 0) 0
    (stamped 7 2 { sumCall.methodCall with payload := laterPayload })) true true
    (stamped 7 2 { sumCall.methodCall with payload := laterPayload })))
    ⟨StubReplies.unused_at_start _ rfl rfl, ⟨rfl, fun method h => by cases h; rfl⟩,
      fun request h _ => by cases h; exact List.mem_cons_self⟩
    (@step_receive initialParts (0, 0) 0 sumService 7 sum 0 _ _ (Or.inl ⟨rfl, rfl⟩) rfl hread _ none _)
  have h4 := h3.next
    (a := Action.stub (.sendReplyMessage ⟨0, 0, false, sum.outTypes.arguments (sum.stubFunctor 7 laterArguments)⟩))
    (t := _) ⟨trivial, fun number message request method arguments hfound hrequest hmethod harguments => by
      cases hfound
      cases hrequest
      cases hmethod
      cases hread.symm.trans harguments
      exact ⟨rfl, rfl⟩, fun request h => by cases h⟩ rfl
  have h5 := h4.next (a := Action.stub (.sendReplyMessageHelper 0 true)) ⟨trivial, trivial, fun request h => by cases h⟩
    (step_reply rfl rfl hreply none)
  rw [hreplyHeader] at h5
  have h6 := h5.next (a := Action.connection (.deliver _)) (t := _)
    ⟨trivial, fun message haction _ => by cases haction; exact Or.inl ⟨0, List.mem_cons_self, rfl⟩⟩ rfl
  have h7 := h6.next (a := Action.connection (.receive 0 false)) (t := _) ⟨trivial, fun _ h => by cases h⟩ rfl
  have h8 := h7.next (a := Action.connection (.handleProxyReceive 0)) (t := _) ⟨trivial, fun _ h => by cases h⟩ rfl
  exact ⟨_, rfl, rfl, calls_get_their_results h8⟩

end SomeIPRuntime.ConcurrentCalls
