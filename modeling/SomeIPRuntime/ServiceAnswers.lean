import SomeIPRuntime.RemoteCalls
import SomeIPRuntime.RequestAnswers

set_option autoImplicit false

namespace SomeIPRuntime.ConcurrentCalls
open ProgramRuns Serialization StubDispatchers TypedValues RemoteCalls

section Services
variable (parts : (type : DataType) → type.Value → (part : DataType) → part.Value)
  (uninitialised : ℕ × ℕ) (fuel : ℕ)

inductive Dispatches (method : RemoteMethod) : Dispatcher → Prop
  | atOnce : Dispatches method (method.dispatcher parts uninitialised fuel)
  | later (dispatcher : ℕ) : Dispatches method (.methodWithReply dispatcher method.isImplemented
      method.isLittleEndian (inArgs parts uninitialised fuel method.inTypes method.inTypes.initials))

structure Service where
  helpers : List Helper
  methods : MethodId → Option RemoteMethod
  provided : ∀ id method, methods id = some method →
    ∃ dispatcher, Dispatches parts uninitialised fuel method dispatcher ∧ Serves dispatcher id helpers

variable {parts uninitialised fuel} (service : Service parts uninitialised fuel)

/-- An answer is an error message, or has the results of the stub function for the arguments. -/
structure Service.Answers (request answer : VsomeipMessage) : Prop where
  isAnswer : StubReplies.AnswerTo request answer
  results : answer.messageType = .response → ∀ method arguments, service.methods request.method = some method →
    method.readsFrom parts uninitialised fuel request = .ok (true, arguments) →
      ∃ handed, writeArguments method.isLittleEndian
        (method.outTypes.arguments (method.stubFunctor request.client arguments)) request.createResponseMessage =
          .ok (some handed) ∧ answer = handed.message

/-- The stub: the function of the method that is called gives the results, at once or when it
    replies to the call. -/
def Service.Performs (received : List VsomeipMessage) (s : StubReplies.State) : StubReplies.Action → Prop
  | .receive helpers answer _ _ message => helpers = service.helpers ∧
      ∀ method, service.methods message.method = some method →
        answer = method.answer parts uninitialised fuel message
  | .sendReplyMessage reply =>
    ∀ number message request method arguments,
      (s.pending reply.dispatcher).lookup reply.call = some (number, message) →
      received[number]? = some request → service.methods request.method = some method →
      method.readsFrom parts uninitialised fuel request = .ok (true, arguments) →
        reply.isLittleEndian = method.isLittleEndian ∧
          reply.outArgs = method.outTypes.arguments (method.stubFunctor request.client arguments)
  | .sendReplyMessageHelper _ _ => True

section Answering
variable {service} {message : VsomeipMessage} {method : RemoteMethod}

/-- An adapter method sends a response with what the stub has given, or no response. -/
theorem adapterMethod_responds (isImplemented isLittleEndian : Bool) (inArgs : List (InputStream.Read Unit))
    (outArgs : List (OutputStream.Write Unit)) (isConnected : Bool) :
    Ensures (MethodWithReplyAdapterDispatcher.dispatchMessage isImplemented isLittleEndian inArgs outArgs
      isConnected message) fun dispatched => ∀ handed ∈ dispatched.handed, handed.message.messageType = .response →
        writeArguments isLittleEndian outArgs message.createResponseMessage = .ok (some handed) := by
  refine ensures_ite (fun _ => ensures_ok fun _ h => by cases h) fun _ => ?_
  refine ensures_ite (fun _ => ensures_ok fun handed h hresponse => ?_) fun _ => ?_
  · cases h
    cases hresponse
  · refine ensures_bind fun success _ => ensures_ite (fun _ => ?_) fun _ => ensures_ok fun _ h => by cases h
    refine ensures_bind fun written hwritten => ?_
    cases written with
    | none => exact ensures_ok fun _ h => by cases h
    | some handed =>
      refine ensures_ok fun other h _ => ?_
      cases h
      exact hwritten

theorem methodWithReply_responds (isImplemented isLittleEndian : Bool) (inArgs : List (InputStream.Read Unit)) :
    Ensures (MethodWithReplyStubDispatcher.dispatchMessage isImplemented isLittleEndian inArgs message)
      fun dispatched => ∀ handed ∈ dispatched.handed, handed.message.messageType ≠ .response := by
  refine ensures_ite (fun _ => ensures_ok fun _ h => by cases h) fun _ => ?_
  refine ensures_ite (fun _ => ensures_ok fun handed h => ?_) fun _ => ?_
  · cases h
    exact MessageType.noConfusion
  · exact ensures_bind fun success _ => ensures_ok fun _ h => by cases h

/-- What the dispatcher of a method hands to the connection answers the message. -/
theorem dispatched_answers {dispatcher : Dispatcher} (hmethod : service.methods message.method = some method)
    (h : Dispatches parts uninitialised fuel method dispatcher) (isConnected : Bool) :
    Ensures (dispatcher.dispatchMessage (method.answer parts uninitialised fuel message) isConnected message)
      fun dispatched => ∀ handed ∈ dispatched.handed, service.Answers message handed.message := by
  intro dispatched hrun handed hhanded
  refine ⟨StubReplies.dispatchMessage_answersOnly dispatcher _ isConnected dispatched hrun handed hhanded,
    fun hresponse other arguments hother hread => ?_⟩
  cases hmethod.symm.trans hother
  cases h with
  | atOnce =>
    have hwritten := adapterMethod_responds _ _ _ _ isConnected dispatched hrun handed hhanded hresponse
    refine ⟨handed, ?_, rfl⟩
    unfold RemoteMethod.answer at hwritten
    rw [hread] at hwritten
    exact hwritten
  | later number => exact absurd hresponse (methodWithReply_responds _ _ _ dispatched hrun handed hhanded)

/-- What is sent at once comes from the dispatcher that is found, or is an error message. -/
theorem served_sends {R : VsomeipMessage → Prop} {dispatcher : Dispatcher} {answer : StubAnswer}
    {isConnected laterConnected : Bool} {helpers : List Helper} (hserves : Serves dispatcher message.method helpers)
    (hdispatch : Ensures (dispatcher.dispatchMessage answer isConnected message)
      fun dispatched => ∀ sent ∈ sentBy isConnected dispatched.handed, R sent)
    (herror : ∀ sent ∈ sentBy laterConnected (some (errorMessage message .malformedMessage)), R sent) :
    Ensures (findDispatcherAndHandle answer isConnected laterConnected message helpers)
      fun handling => ∀ sent ∈ handling.sent, R sent := by
  induction helpers with
  | nil => exact hserves.elim
  | cons helper rest ih =>
    unfold findDispatcherAndHandle
    rcases hserves with ⟨hstub, htable⟩ | ⟨hskip, hrest⟩
    · rw [htable, hstub]
      refine ensures_bind fun dispatched hrun => ?_
      have hfirst := hdispatch dispatched hrun
      refine ensures_ite (fun _ => ensures_ok fun sent hsent => ?_) fun _ => ensures_ok hfirst
      rcases List.mem_append.1 hsent with hsent | hsent
      · exact hfirst sent hsent
      · exact herror sent hsent
    · rcases hskip with hstub | htable
      · rw [hstub]
        split
        · rename_i hfalse
          cases hfalse
        · exact ih hrest
      · rw [htable]
        split
        · rename_i hfalse _
          cases hfalse
        · exact ih hrest

theorem received_answers {answer : StubAnswer}
    (hanswer : ∀ method, service.methods message.method = some method →
      answer = method.answer parts uninitialised fuel message) (isConnected laterConnected : Bool) :
    Ensures (findDispatcherAndHandle answer isConnected laterConnected message service.helpers)
      fun handling => ∀ sent ∈ handling.sent, service.Answers message sent := by
  cases hmethod : service.methods message.method with
  | none =>
    intro handling hrun sent hsent
    refine ⟨StubReplies.findDispatcherAndHandle_answersOnly answer isConnected laterConnected service.helpers
      handling hrun sent hsent, fun _ method arguments hsome => ?_⟩
    cases hmethod.symm.trans hsome
  | some method =>
    rcases service.provided _ method hmethod with ⟨dispatcher, hdispatches, hserves⟩
    rw [hanswer method hmethod]
    refine served_sends hserves (fun dispatched hrun sent hsent => ?_) fun sent hsent => ?_
    · have hanswers := dispatched_answers hmethod hdispatches isConnected dispatched hrun
      cases hhanded : dispatched.handed with
      | none =>
        rw [hhanded] at hsent
        cases hsent
      | some handed =>
        have hmine := hanswers handed hhanded
        rw [hhanded] at hsent
        rw [StubReplies.mem_sentBy hmine.isAnswer.isAnswer hsent]
        exact hmine
    · have hmalformed := StubReplies.errorMessage_answers message .malformedMessage
      rw [StubReplies.mem_sentBy hmalformed.isAnswer hsent]
      exact ⟨hmalformed, fun hresponse => by cases hresponse⟩

theorem performs_truthful {received : List VsomeipMessage} {s : StubReplies.State} {a : StubReplies.Action}
    (h : service.Performs received s a) : StubReplies.Truthful service.Answers received s a := by
  cases a with
  | receive helpers answer isConnected laterConnected message =>
    rcases h with ⟨rfl, hanswer⟩
    exact received_answers hanswer isConnected laterConnected
  | sendReplyMessage reply =>
    intro number message request hfound hrequest handed hwritten
    refine ⟨(StubReplies.sameCall_self request).response.written hwritten,
      fun _ method arguments hmethod hread => ?_⟩
    rcases h number message request method arguments hfound hrequest hmethod hread with ⟨hendian, hresults⟩
    rw [hendian, hresults] at hwritten
    exact ⟨handed, hwritten, rfl⟩
  | sendReplyMessageHelper index isConnected => trivial

end Answering

end Services

end SomeIPRuntime.ConcurrentCalls
