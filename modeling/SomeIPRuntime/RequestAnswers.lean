import SomeIPRuntime.ArgumentRoundTrip
import SomeIPRuntime.StubReplies

set_option autoImplicit false

namespace SomeIPRuntime.StubReplies
open OutputStream (Write)
open Serialization ProgramRuns StubDispatchers StepSystems

def Action.message : Action → Option VsomeipMessage
  | .receive _ _ _ _ message => some message
  | _ => none

def messagesReceived (actions : List Action) : List VsomeipMessage := actions.filterMap Action.message

structure SameCall (request message : VsomeipMessage) : Prop where
  service : message.service = request.service
  instance_ : message.instance_ = request.instance_
  method : message.method = request.method
  interfaceVersion : message.interfaceVersion = request.interfaceVersion
  client : message.client = request.client
  session : message.session = request.session

structure AnswerTo (request answer : VsomeipMessage) : Prop where
  same : SameCall request answer
  isAnswer : answer.messageType = .response ∨ answer.messageType = .error

section Correspondence
variable {s t : State} {request message : VsomeipMessage} {messages : List VsomeipMessage}

theorem sameCall_self (message : VsomeipMessage) : SameCall message message := ⟨rfl, rfl, rfl, rfl, rfl, rfl⟩

theorem SameCall.response (h : SameCall request message) : AnswerTo request message.createResponseMessage :=
  ⟨⟨h.service, h.instance_, h.method, h.interfaceVersion, h.client, h.session⟩, Or.inl rfl⟩

theorem errorMessage_answers (message : VsomeipMessage) (returnCode : ReturnCode) :
    AnswerTo message (errorMessage message returnCode).message :=
  ⟨⟨rfl, rfl, rfl, rfl, rfl, rfl⟩, Or.inr rfl⟩

theorem AnswerTo.withPayload (h : AnswerTo request message) (payload : Message) :
    AnswerTo request { message with payload := payload } :=
  ⟨⟨h.same.service, h.same.instance_, h.same.method, h.same.interfaceVersion, h.same.client, h.same.session⟩,
    h.isAnswer⟩

theorem AnswerTo.written (h : AnswerTo request message) {isLittleEndian : Bool} {arguments : List (Write Unit)}
    {handed : Handed} (hrun : writeArguments isLittleEndian arguments message = .ok (some handed)) :
    AnswerTo request handed.message := by
  rw [TypedValues.writeArguments_header hrun]
  exact h.withPayload _

theorem AnswerTo.flushed (h : AnswerTo request message) {o : OutputStream} {handed : Handed}
    (hrun : flushInto message o = .ok handed) : AnswerTo request handed.message := by
  unfold flushInto at hrun
  cases hflush : o.flush with
  | error halt u =>
    rw [hflush] at hrun
    cases hrun
  | ok payload u =>
    rw [hflush] at hrun
    cases hrun
    exact h.withPayload payload

theorem mem_sentBy {handed : Handed} (h : handed.message.messageType = .response ∨ handed.message.messageType = .error)
    {isConnected : Bool} {answer : VsomeipMessage} (hanswer : answer ∈ sentBy isConnected (some handed)) :
    answer = handed.message := by
  cases isConnected with
  | false => cases hanswer
  | true =>
    have hself : handed.message.withoutReply = handed.message := by
      unfold VsomeipMessage.withoutReply VsomeipMessage.isRequestType
      rcases h with hresponse | herror
      · rw [hresponse]
        rfl
      · rw [herror]
        rfl
    exact (List.mem_singleton.1 hanswer).trans hself

theorem AnswerTo.sent {handed : Handed} (h : AnswerTo request handed.message) (isConnected : Bool) :
    ∀ answer ∈ sentBy isConnected (some handed), AnswerTo request answer :=
  fun _ hanswer => (mem_sentBy h.isAnswer hanswer).symm ▸ h

def AnswersOnly (message : VsomeipMessage) (dispatched : Dispatched) : Prop :=
  ∀ handed ∈ dispatched.handed, AnswerTo message handed.message

theorem answersOnly_none (isHandled isPending : Bool) : AnswersOnly message ⟨none, isHandled, isPending⟩ :=
  fun _ h => by cases h

theorem answersOnly_some {handed : Handed} (h : AnswerTo message handed.message) (isHandled isPending : Bool) :
    AnswersOnly message ⟨some handed, isHandled, isPending⟩ := by
  intro other hother
  cases hother
  exact h

theorem attributeValueReply_answersOnly (isLittleEndian : Bool) (value : Write Unit) (isConnected : Bool) :
    Ensures (GetAttributeStubDispatcher.sendAttributeValueReply isLittleEndian value isConnected message)
      (AnswersOnly message) := by
  unfold GetAttributeStubDispatcher.sendAttributeValueReply
  split
  · exact ensures_map fun handed hrun =>
      answersOnly_some ((sameCall_self message).response.flushed hrun) _ _
  · exact ensures_error _

theorem adapterMethod_answersOnly (isImplemented isLittleEndian : Bool)
    (inArgs : List (InputStream.Read Unit)) (outArgs : List (Write Unit)) (isConnected : Bool) :
    Ensures (MethodWithReplyAdapterDispatcher.dispatchMessage isImplemented isLittleEndian inArgs outArgs
      isConnected message) (AnswersOnly message) := by
  refine ensures_ite (fun _ => ensures_ok (answersOnly_none _ _)) fun _ => ?_
  refine ensures_ite (fun _ => ensures_ok (answersOnly_some (errorMessage_answers _ _) _ _)) fun _ => ?_
  refine ensures_bind fun success _ => ensures_ite (fun _ => ?_) fun _ => ensures_ok (answersOnly_none _ _)
  refine ensures_bind fun written hwritten => ?_
  cases written with
  | none => exact ensures_ok (answersOnly_none _ _)
  | some handed =>
    exact ensures_ok (answersOnly_some ((sameCall_self message).response.written hwritten) _ _)

theorem setAttribute_answersOnly (isImplemented isLittleEndian : Bool) (itsValue : InputStream.Read Unit)
    (value : Write Unit) (isConnected : Bool) :
    Ensures (SetAttributeStubDispatcher.dispatchMessage isImplemented isLittleEndian itsValue value isConnected
      message) (AnswersOnly message) := by
  refine ensures_ite (fun _ => ensures_ok (answersOnly_none _ _)) fun _ => ?_
  exact ensures_bind fun success _ =>
    ensures_ite (fun _ => attributeValueReply_answersOnly isLittleEndian value isConnected)
      fun _ => ensures_ok (answersOnly_none _ _)

theorem dispatchMessage_answersOnly (dispatcher : Dispatcher) (answer : StubAnswer) (isConnected : Bool) :
    Ensures (dispatcher.dispatchMessage answer isConnected message) (AnswersOnly message) := by
  cases dispatcher with
  | method isImplemented isLittleEndian inArgs =>
    exact ensures_ite (fun _ => ensures_ok (answersOnly_none _ _))
      fun _ => ensures_bind fun _ _ => ensures_ok (answersOnly_none _ _)
  | methodWithReply dispatcher isImplemented isLittleEndian inArgs =>
    refine ensures_ite (fun _ => ensures_ok (answersOnly_none _ _)) fun _ => ?_
    refine ensures_ite (fun _ => ensures_ok (answersOnly_some (errorMessage_answers _ _) _ _)) fun _ => ?_
    exact ensures_bind fun _ _ => ensures_ok (answersOnly_none _ _)
  | adapterMethod isImplemented isLittleEndian inArgs => exact adapterMethod_answersOnly _ _ _ _ _
  | getAttribute isImplemented isLittleEndian =>
    exact ensures_ite (fun _ => ensures_ok (answersOnly_none _ _))
      fun _ => attributeValueReply_answersOnly _ _ _
  | setAttribute isImplemented isLittleEndian itsValue => exact setAttribute_answersOnly _ _ _ _ _
  | setObservableAttribute isImplemented isLittleEndian itsValue => exact setAttribute_answersOnly _ _ _ _ _

theorem AnswersOnly.sent {dispatched : Dispatched} (h : AnswersOnly message dispatched) (isConnected : Bool) :
    ∀ answer ∈ sentBy isConnected dispatched.handed, AnswerTo message answer := by
  cases hhanded : dispatched.handed with
  | none =>
    intro answer hanswer
    cases hanswer
  | some handed => exact (h handed hhanded).sent isConnected

theorem findDispatcherAndHandle_answersOnly (answer : StubAnswer) (isConnected laterConnected : Bool)
    (helpers : List Helper) :
    Ensures (findDispatcherAndHandle answer isConnected laterConnected message helpers)
      fun handling => ∀ sent ∈ handling.sent, AnswerTo message sent := by
  induction helpers with
  | nil => exact ensures_ok ((errorMessage_answers message .unknownMethod).sent isConnected)
  | cons helper rest ih =>
    unfold findDispatcherAndHandle
    split
    · rename_i dispatcher _ _
      refine ensures_bind fun dispatched hrun => ?_
      have hfirst := (dispatchMessage_answersOnly dispatcher answer isConnected dispatched hrun).sent isConnected
      refine ensures_ite (fun _ => ensures_ok fun sent hsent => ?_) fun _ => ensures_ok hfirst
      rcases List.mem_append.1 hsent with hsent | hsent
      · exact hfirst sent hsent
      · exact (errorMessage_answers message .malformedMessage).sent laterConnected sent hsent
    · exact ih

/-- The counter of a dispatcher has not come round to a call that still waits, or is being replied to. -/
def Unused (s : State) : Prop :=
  ∀ dispatcher, (s.pending dispatcher).lookup (s.currentCall dispatcher) = none ∧
    ∀ reply ∈ s.replies, reply.dispatcher = dispatcher → reply.call ≠ s.currentCall dispatcher

/-- A message is received while the counters are at calls that are not in use. -/
def Counting (s : State) : Action → Prop
  | .receive _ _ _ _ _ => Unused s
  | _ => True

/-- The answer that a reply writes to a request is one of `R`. -/
def Reply.Right (R : VsomeipMessage → VsomeipMessage → Prop) (reply : Reply) (request : VsomeipMessage) : Prop :=
  ∀ handed, writeArguments reply.isLittleEndian reply.outArgs request.createResponseMessage = .ok (some handed) →
    R request handed.message

/-- What is sent at once and what the stub replies is right, by a relation of requests and answers. -/
def Truthful (R : VsomeipMessage → VsomeipMessage → Prop) (messages : List VsomeipMessage) (s : State) :
    Action → Prop
  | .receive helpers answer isConnected laterConnected message =>
    Ensures (findDispatcherAndHandle answer isConnected laterConnected message helpers)
      fun handling => ∀ sent ∈ handling.sent, R message sent
  | .sendReplyMessage reply =>
    ∀ number message request, (s.pending reply.dispatcher).lookup reply.call = some (number, message) →
      messages[number]? = some request → reply.Right R request
  | .sendReplyMessageHelper _ _ => True

/-- What waits and what has been sent goes back to the messages that have been received, and what
    waits for the second block of a reply is a response. -/
structure Corresponds (R : VsomeipMessage → VsomeipMessage → Prop) (messages : List VsomeipMessage) (s : State) :
    Prop where
  received : s.received = messages.length
  waiting : ∀ dispatcher call number message, (s.pending dispatcher).lookup call = some (number, message) →
    ∃ request, messages[number]? = some request ∧ (message = request ∨ message = request.createResponseMessage)
  prepared : ∀ reply ∈ s.replies, ∀ number message,
    (s.pending reply.dispatcher).lookup reply.call = some (number, message) →
      ∃ request, messages[number]? = some request ∧ message = request.createResponseMessage ∧ reply.Right R request
  sent : ∀ number answer, (number, answer) ∈ s.sent →
    ∃ request, messages[number]? = some request ∧ R request answer

variable {R : VsomeipMessage → VsomeipMessage → Prop}

theorem initial_corresponds : Corresponds R [] initial where
  received := rfl
  waiting _ _ _ _ h := by cases h
  prepared _ h := by cases h
  sent _ _ h := by cases h

theorem found_later {number : ℕ} {P : VsomeipMessage → Prop} (later : List VsomeipMessage)
    (h : ∃ request, messages[number]? = some request ∧ P request) :
    ∃ request, (messages ++ later)[number]? = some request ∧ P request := by
  rcases h with ⟨request, hget, hP⟩
  refine ⟨request, ?_, hP⟩
  rw [List.getElem?_append_left (List.getElem?_eq_some_iff.1 hget).1]
  exact hget

theorem Corresponds.lookup_last (h : Corresponds R messages s) (message : VsomeipMessage) :
    (messages ++ [message])[s.received]? = some message := by
  rw [h.received]
  exact List.getElem?_concat_length

theorem Corresponds.receive (h : Corresponds R messages s) (hunused : Unused s) {handling : Handling}
    (hsent : ∀ answer ∈ handling.sent, R message answer) :
    Corresponds R (messages ++ [message]) (receive handling message s) := by
  have hlast := h.lookup_last message
  have hnew : ∀ number answer,
      (number, answer) ∈ handling.sent.map (fun answer => (s.received, answer)) ++ s.sent →
      ∃ request, (messages ++ [message])[number]? = some request ∧ R request answer := by
    intro number answer hmem
    rcases List.mem_append.1 hmem with hmem | hmem
    · rcases List.mem_map.1 hmem with ⟨sent, hmem, heq⟩
      cases heq
      exact ⟨message, hlast, hsent answer hmem⟩
    · exact found_later [message] (h.sent number answer hmem)
  have hlength : s.received + 1 = (messages ++ [message]).length := by
    rw [List.length_append, h.received]
    rfl
  unfold StubReplies.receive
  cases handling.waiting with
  | none =>
    exact ⟨hlength, fun d c number m hlookup => found_later [message] (h.waiting d c number m hlookup),
      fun reply hreply number m hlookup => found_later [message] (h.prepared reply hreply number m hlookup), hnew⟩
  | some dispatcher =>
    refine ⟨hlength, fun d c number m hlookup => ?_, fun reply hreply number m hlookup => ?_, hnew⟩
    · change (Function.update s.pending dispatcher ((s.pending dispatcher).insert (s.currentCall dispatcher)
        (s.received, message)) d).lookup c = some (number, m) at hlookup
      rw [lookup_put] at hlookup
      split at hlookup
      · cases hlookup
        exact ⟨message, hlast, Or.inl rfl⟩
      · exact found_later [message] (h.waiting d c number m hlookup)
    · change (Function.update s.pending dispatcher ((s.pending dispatcher).insert (s.currentCall dispatcher)
        (s.received, message)) reply.dispatcher).lookup reply.call = some (number, m) at hlookup
      rw [lookup_put] at hlookup
      split at hlookup
      · rename_i hhere
        exact absurd hhere.2 ((hunused dispatcher).2 reply hreply hhere.1)
      · exact found_later [message] (h.prepared reply hreply number m hlookup)

theorem response_of_either {request message : VsomeipMessage}
    (h : message = request ∨ message = request.createResponseMessage) :
    message.createResponseMessage = request.createResponseMessage := by
  rcases h with rfl | rfl <;> rfl

theorem Corresponds.sendReplyMessage (h : Corresponds R messages s) {reply : Reply}
    (hright : Truthful R messages s (.sendReplyMessage reply)) :
    Corresponds R messages (sendReplyMessage reply s) := by
  unfold StubReplies.sendReplyMessage
  split
  · rename_i number itsMessage hfound
    rcases h.waiting _ _ _ _ hfound with ⟨request, hget, heither⟩
    refine ⟨h.received, fun d c n m hlookup => ?_, fun other hother n m hlookup => ?_, h.sent⟩
    · dsimp only at hlookup
      rw [lookup_put] at hlookup
      split at hlookup
      · cases hlookup
        exact ⟨request, hget, Or.inr (response_of_either heither)⟩
      · exact h.waiting d c n m hlookup
    · dsimp only at hlookup
      rw [lookup_put] at hlookup
      split at hlookup
      · rename_i hhere
        cases hlookup
        refine ⟨request, hget, response_of_either heither, ?_⟩
        rcases List.mem_cons.1 hother with rfl | hother
        · exact hright number itsMessage request hfound hget
        · rcases h.prepared other hother number itsMessage (by rw [hhere.1, hhere.2]; exact hfound) with
            ⟨request', hget', -, hothers⟩
          cases hget.symm.trans hget'
          exact hothers
      · rename_i helse
        rcases List.mem_cons.1 hother with rfl | hother
        · exact absurd ⟨rfl, rfl⟩ helse
        · exact h.prepared other hother n m hlookup
  · exact h

theorem Corresponds.finish (h : Corresponds R messages s) (reply : Reply) :
    Corresponds R messages (finish reply s) := by
  refine ⟨h.received, fun d c n m hlookup => ?_, fun other hother n m hlookup => ?_, h.sent⟩ <;>
    unfold StubReplies.finish at hlookup <;> dsimp only at hlookup <;> rw [lookup_erased] at hlookup <;>
    split at hlookup
  · cases hlookup
  · exact h.waiting d c n m hlookup
  · cases hlookup
  · exact h.prepared other hother n m hlookup

theorem Corresponds.sendReplyMessageHelper (h : Corresponds R messages s) {index : ℕ} {reply : Reply}
    (hreply : s.replies[index]? = some reply) {isConnected : Bool}
    (hstep : sendReplyMessageHelper reply isConnected { s with replies := s.replies.eraseIdx index } = some t) :
    Corresponds R messages t := by
  have hrest : Corresponds R messages { s with replies := s.replies.eraseIdx index } :=
    ⟨h.received, h.waiting, fun other hother => h.prepared other (List.mem_of_mem_eraseIdx hother), h.sent⟩
  unfold StubReplies.sendReplyMessageHelper at hstep
  split at hstep
  · cases hstep
    exact hrest
  · rename_i number itsReply hfound
    rcases h.prepared reply (List.mem_of_getElem? hreply) number itsReply hfound with
      ⟨request, hget, rfl, hright⟩
    have hfinish := hrest.finish reply
    split at hstep
    · cases hstep
    · cases hstep
      exact ⟨hfinish.received, hfinish.waiting, hfinish.prepared, hfinish.sent⟩
    · rename_i handed hwritten
      cases hstep
      refine ⟨hfinish.received, hfinish.waiting, hfinish.prepared, fun n answer hmem => ?_⟩
      have hresponse : handed.message.messageType = .response := by
        rw [TypedValues.writeArguments_header hwritten]
        rfl
      rcases List.mem_append.1 hmem with hmem | hmem
      · rcases List.mem_map.1 hmem with ⟨sent, hmem, heq⟩
        cases heq
        rw [mem_sentBy (Or.inl hresponse) hmem]
        exact ⟨request, hget, hright handed hwritten⟩
      · exact h.sent n answer hmem

theorem messagesReceived_append (before : List Action) (a : Action) :
    messagesReceived (before ++ [a]) = messagesReceived before ++ (Action.message a).toList := by
  unfold messagesReceived
  rw [List.filterMap_append]
  cases h : a.message <;> simp [h]

theorem step_corresponds {a : Action} (h : Corresponds R messages s) (hcounting : Counting s a)
    (hright : Truthful R messages s a) (hstep : step s a = some t) :
    Corresponds R (messages ++ a.message.toList) t := by
  cases a with
  | receive helpers answer isConnected laterConnected message =>
    dsimp only [step] at hstep
    split at hstep
    · rename_i handling hrun
      cases hstep
      exact h.receive hcounting (hright handling hrun)
    · cases hstep
  | sendReplyMessage reply =>
    cases hstep
    exact (List.append_nil _).symm ▸ h.sendReplyMessage hright
  | sendReplyMessageHelper index isConnected =>
    rcases Option.bind_eq_some_iff.1 hstep with ⟨reply, hreply, hstep⟩
    exact (List.append_nil _).symm ▸ h.sendReplyMessageHelper hreply hstep

theorem truthful_answers (messages : List VsomeipMessage) (s : State) (a : Action) :
    Truthful AnswerTo messages s a := by
  cases a with
  | receive helpers answer isConnected laterConnected message =>
    exact findDispatcherAndHandle_answersOnly answer isConnected laterConnected helpers
  | sendReplyMessage reply =>
    intro number message request hfound hget handed hwritten
    exact (sameCall_self request).response.written hwritten
  | sendReplyMessageHelper index isConnected => trivial

theorem run_corresponds {before : List Action} {a : Action} (h : Corresponds AnswerTo (messagesReceived before) s)
    (hcounting : Counting s a) (hstep : step s a = some t) :
    Corresponds AnswerTo (messagesReceived (before ++ [a])) t := by
  rw [messagesReceived_append]
  exact step_corresponds h hcounting (truthful_answers _ s a) hstep

/-- However replies and messages take turns, what a stub sends are answers, and each has the
    identifiers of the message it is sent for. -/
theorem answers_are_for_their_requests {actions : List Action} (hrun : run step initial actions = some s)
    (hcounting : Meets step Counting initial actions) :
    ∀ number answer, (number, answer) ∈ s.sent →
      ∃ request, (messagesReceived actions)[number]? = some request ∧ AnswerTo request answer :=
  (run_history (I := fun before s => Corresponds AnswerTo (messagesReceived before) s)
    (show run step initial actions = some s from hrun) hcounting
    (show Corresponds AnswerTo (messagesReceived []) initial from initial_corresponds)
    fun _ _ _ _ h hok hstep => run_corresponds h hok hstep).sent

end Correspondence

def WithReply : Dispatcher → Prop
  | .method _ _ _ => False
  | _ => True

/-- The request has an answer, its reply could not be serialized, or it waits for the stub. -/
def Accounted (number : ℕ) (s : State) : Prop :=
  number ∈ s.sent.map Prod.fst ∨ number ∈ s.unserialized ∨
    ∃ dispatcher call message, (s.pending dispatcher).lookup call = some (number, message)

/-- The counters are at calls that are not in use, the connection is there, and a request is for a
    method with reply. -/
def Answering (s : State) : Action → Prop
  | .receive helpers _ isConnected laterConnected message =>
    Unused s ∧ isConnected = true ∧ laterConnected = true ∧
      (message.messageType = .request → ∀ helper ∈ helpers, ∀ dispatcher,
        helper.stubDispatcherTable message.method = some dispatcher → WithReply dispatcher)
  | .sendReplyMessage _ => True
  | .sendReplyMessageHelper _ isConnected => isConnected = true

section Accounting
variable {s t : State} {message : VsomeipMessage}

def LeavesNothing (dispatcher : Dispatcher) (dispatched : Dispatched) : Prop :=
  dispatched.isHandled = false ∨ dispatched.handed ≠ none ∨ dispatcher.waits dispatched ≠ none

theorem attributeValueReply_leavesNothing (dispatcher : Dispatcher) (isLittleEndian : Bool) (value : Write Unit) (isConnected : Bool) :
    Ensures (GetAttributeStubDispatcher.sendAttributeValueReply isLittleEndian value isConnected message)
      (LeavesNothing dispatcher) := by
  unfold GetAttributeStubDispatcher.sendAttributeValueReply
  split
  · exact ensures_map fun handed _ => Or.inr (Or.inl (Option.some_ne_none handed))
  · exact ensures_error _

theorem setAttribute_leavesNothing (dispatcher : Dispatcher) (isImplemented isLittleEndian : Bool) (itsValue : InputStream.Read Unit)
    (value : Write Unit) (isConnected : Bool) :
    Ensures (SetAttributeStubDispatcher.dispatchMessage isImplemented isLittleEndian itsValue value isConnected
      message) (LeavesNothing dispatcher) := by
  refine ensures_ite (fun _ => ensures_ok (Or.inl rfl)) fun _ => ?_
  exact ensures_bind fun success _ =>
    ensures_ite (fun _ => attributeValueReply_leavesNothing dispatcher isLittleEndian value isConnected)
      fun _ => ensures_ok (Or.inl rfl)

theorem dispatchMessage_leavesNothing {dispatcher : Dispatcher} (h : WithReply dispatcher) (answer : StubAnswer)
    (isConnected : Bool) :
    Ensures (dispatcher.dispatchMessage answer isConnected message) (LeavesNothing dispatcher) := by
  cases dispatcher with
  | method isImplemented isLittleEndian inArgs => exact h.elim
  | methodWithReply dispatcher isImplemented isLittleEndian inArgs =>
    refine ensures_ite (fun _ => ensures_ok (Or.inl rfl)) fun _ => ?_
    refine ensures_ite (fun _ => ensures_ok (Or.inr (Or.inl (Option.some_ne_none _)))) fun _ => ?_
    refine ensures_bind fun success _ => ensures_ok ?_
    cases success with
    | false => exact Or.inl rfl
    | true => exact Or.inr (Or.inr (Option.some_ne_none dispatcher))
  | adapterMethod isImplemented isLittleEndian inArgs =>
    refine ensures_ite (fun _ => ensures_ok (Or.inl rfl)) fun _ => ?_
    refine ensures_ite (fun _ => ensures_ok (Or.inr (Or.inl (Option.some_ne_none _)))) fun _ => ?_
    refine ensures_bind fun success _ => ensures_ite (fun _ => ?_) fun _ => ensures_ok (Or.inl rfl)
    refine ensures_bind fun written _ => ?_
    cases written with
    | none => exact ensures_ok (Or.inl rfl)
    | some handed => exact ensures_ok (Or.inr (Or.inl (Option.some_ne_none handed)))
  | getAttribute isImplemented isLittleEndian =>
    exact ensures_ite (fun _ => ensures_ok (Or.inl rfl))
      fun _ => attributeValueReply_leavesNothing _ _ _ _
  | setAttribute isImplemented isLittleEndian itsValue => exact setAttribute_leavesNothing _ _ _ _ _ _
  | setObservableAttribute isImplemented isLittleEndian itsValue => exact setAttribute_leavesNothing _ _ _ _ _ _

theorem findDispatcherAndHandle_leavesNothing (answer : StubAnswer) (hrequest : message.messageType = .request)
    (helpers : List Helper)
    (h : ∀ helper ∈ helpers, ∀ dispatcher, helper.stubDispatcherTable message.method = some dispatcher →
      WithReply dispatcher) :
    Ensures (findDispatcherAndHandle answer true true message helpers)
      fun handling => handling.sent ≠ [] ∨ handling.waiting ≠ none := by
  induction helpers with
  | nil => exact ensures_ok (Or.inl (List.cons_ne_nil _ _))
  | cons helper rest ih =>
    unfold findDispatcherAndHandle
    split
    · rename_i dispatcher hfound _
      refine ensures_bind fun dispatched hrun => ?_
      have hleaves := dispatchMessage_leavesNothing (h helper List.mem_cons_self dispatcher hfound) answer true
        dispatched hrun
      refine ensures_ite (fun _ => ensures_ok (Or.inl ?_)) fun hhandled => ensures_ok ?_
      · exact List.append_ne_nil_of_right_ne_nil _ (List.cons_ne_nil _ _)
      · rcases hleaves with hunhandled | hhanded | hwaits
        · rw [hunhandled, show message.isRequestType = true from decide_eq_true hrequest] at hhandled
          exact absurd rfl hhandled
        · left
          cases hsome : dispatched.handed with
          | none => exact absurd hsome hhanded
          | some handed => exact List.cons_ne_nil _ _
        · exact Or.inr hwaits
    · exact ih fun other hother => h other (List.mem_cons_of_mem helper hother)

theorem accounted_received {handling : Handling} (h : handling.sent ≠ [] ∨ handling.waiting ≠ none) :
    Accounted s.received (receive handling message s) := by
  rcases h with hsent | hwaiting
  · left
    cases hlist : handling.sent with
    | nil => exact absurd hlist hsent
    | cons answer rest =>
      unfold receive
      rw [hlist]
      cases handling.waiting <;> exact List.mem_cons_self
  · right
    right
    rcases Option.ne_none_iff_exists'.1 hwaiting with ⟨dispatcher, hsome⟩
    refine ⟨dispatcher, s.currentCall dispatcher, message, ?_⟩
    unfold receive
    rw [hsome]
    exact (lookup_put _ _ _).trans (if_pos ⟨rfl, rfl⟩)

/-- A new message takes no call away that is not at the counter. -/
theorem Accounted.receive {number : ℕ} (h : Accounted number s) (hunused : Unused s) (handling : Handling) :
    Accounted number (receive handling message s) := by
  have hsent : ∀ n ∈ s.sent.map Prod.fst,
      n ∈ (handling.sent.map (fun answer => (s.received, answer)) ++ s.sent).map Prod.fst := by
    intro n hn
    rw [List.map_append]
    exact List.mem_append_right _ hn
  unfold StubReplies.receive
  rcases h with h | h | ⟨d, c, m, hlookup⟩
  · left
    cases handling.waiting <;> exact hsent number h
  · right
    left
    cases handling.waiting <;> exact h
  · right
    right
    cases handling.waiting with
    | none => exact ⟨d, c, m, hlookup⟩
    | some dispatcher =>
      refine ⟨d, c, m, (lookup_put _ _ _).trans ((if_neg ?_).trans hlookup)⟩
      rintro ⟨rfl, rfl⟩
      rw [(hunused d).1] at hlookup
      cases hlookup

theorem Accounted.sendReplyMessage {number : ℕ} (h : Accounted number s) (reply : Reply) :
    Accounted number (sendReplyMessage reply s) := by
  unfold StubReplies.sendReplyMessage
  split
  · rename_i n itsMessage hfound
    rcases h with h | h | ⟨d, c, m, hlookup⟩
    · exact Or.inl h
    · exact Or.inr (Or.inl h)
    · right
      right
      by_cases hhere : d = reply.dispatcher ∧ c = reply.call
      · rw [hhere.1, hhere.2, hfound] at hlookup
        cases hlookup
        exact ⟨d, c, _, (lookup_put _ _ _).trans (if_pos hhere)⟩
      · exact ⟨d, c, m, (lookup_put _ _ _).trans ((if_neg hhere).trans hlookup)⟩
  · exact h

/-- Another call than the one that is replied to still waits. -/
theorem Accounted.finish {number n : ℕ} {m : VsomeipMessage} (h : Accounted number s) {reply : Reply}
    (hfound : (s.pending reply.dispatcher).lookup reply.call = some (n, m)) :
    number = n ∨ Accounted number (finish reply s) := by
  rcases h with h | h | ⟨d, c, m', hlookup⟩
  · exact Or.inr (Or.inl h)
  · exact Or.inr (Or.inr (Or.inl h))
  · by_cases hhere : d = reply.dispatcher ∧ c = reply.call
    · rw [hhere.1, hhere.2, hfound] at hlookup
      cases hlookup
      exact Or.inl rfl
    · exact Or.inr (Or.inr (Or.inr ⟨d, c, m', (lookup_erased _ _).trans ((if_neg hhere).trans hlookup)⟩))

theorem Accounted.sendReplyMessageHelper {number : ℕ} (h : Accounted number s) {reply : Reply}
    (hstep : sendReplyMessageHelper reply true s = some t) : Accounted number t := by
  unfold StubReplies.sendReplyMessageHelper at hstep
  split at hstep
  · cases hstep
    exact h
  · rename_i n itsReply hfound
    have hfinish := h.finish hfound
    split at hstep
    · cases hstep
    · cases hstep
      rcases hfinish with rfl | hsent | hfailed | hwaits
      · exact Or.inr (Or.inl List.mem_cons_self)
      · exact Or.inl hsent
      · exact Or.inr (Or.inl (List.mem_cons_of_mem n hfailed))
      · exact Or.inr (Or.inr hwaits)
    · cases hstep
      rcases hfinish with rfl | hsent | hfailed | hwaits
      · exact Or.inl List.mem_cons_self
      · exact Or.inl (List.mem_cons_of_mem n hsent)
      · exact Or.inr (Or.inl hfailed)
      · exact Or.inr (Or.inr hwaits)

structure AllAccounted (messages : List VsomeipMessage) (s : State) : Prop where
  received : s.received = messages.length
  each : ∀ number request, messages[number]? = some request → request.messageType = .request → Accounted number s

theorem step_accounted {before : List Action} {a : Action} (h : AllAccounted (messagesReceived before) s)
    (hanswering : Answering s a) (hstep : step s a = some t) :
    AllAccounted (messagesReceived (before ++ [a])) t := by
  rw [messagesReceived_append]
  cases a with
  | receive helpers answer isConnected laterConnected message =>
    rcases hanswering with ⟨hunused, rfl, rfl, hreplies⟩
    dsimp only [step] at hstep
    split at hstep
    · rename_i handling hrun
      cases hstep
      refine ⟨?_, fun number request hget hrequest => ?_⟩
      · rw [show (receive handling message s).received = s.received + 1 by
          unfold receive; cases handling.waiting <;> rfl, h.received, List.length_append]
        rfl
      · by_cases hold : number < (messagesReceived before).length
        · rw [List.getElem?_append_left hold] at hget
          exact (h.each number request hget hrequest).receive hunused handling
        · have hnumber : number = s.received := by
            have hlt := (List.getElem?_eq_some_iff.1 hget).1
            rw [List.length_append] at hlt
            change number < _ + 1 at hlt
            rw [h.received]
            omega
          rw [hnumber, h.received, show (Action.receive helpers answer true true message).message.toList =
            [message] from rfl, List.getElem?_concat_length] at hget
          cases hget
          rw [hnumber]
          exact accounted_received
            (findDispatcherAndHandle_leavesNothing answer hrequest helpers (hreplies hrequest) handling hrun)
    · cases hstep
  | sendReplyMessage reply =>
    cases hstep
    rw [show (Action.sendReplyMessage reply).message.toList = [] from rfl, List.append_nil]
    refine ⟨?_, fun number request hget hrequest => (h.each number request hget hrequest).sendReplyMessage reply⟩
    unfold sendReplyMessage
    split <;> exact h.received
  | sendReplyMessageHelper index isConnected =>
    cases hanswering
    rw [show (Action.sendReplyMessageHelper index true).message.toList = [] from rfl, List.append_nil]
    rcases Option.bind_eq_some_iff.1 hstep with ⟨reply, -, hstep⟩
    refine ⟨?_, fun number request hget hrequest => ?_⟩
    · have hreceived : t.received = s.received := by
        unfold sendReplyMessageHelper at hstep
        split at hstep
        · cases hstep
          rfl
        · split at hstep <;> cases hstep <;> rfl
      exact hreceived.trans h.received
    · have hrest : Accounted number { s with replies := s.replies.eraseIdx index } :=
        h.each number request hget hrequest
      exact hrest.sendReplyMessageHelper hstep

/-- However replies and messages take turns, a request that was received has been answered, waits
    for the stub, or has a reply that could not be serialized. -/
theorem requests_are_not_lost {actions : List Action} (hrun : run step initial actions = some s)
    (hanswering : Meets step Answering initial actions) :
    ∀ number request, (messagesReceived actions)[number]? = some request → request.messageType = .request →
      Accounted number s :=
  (run_history (I := fun before s => AllAccounted (messagesReceived before) s)
    (show run step initial actions = some s from hrun) hanswering
    (show AllAccounted (messagesReceived []) initial from ⟨rfl, fun _ _ h => by cases h⟩)
    fun _ _ _ _ h hok hstep => step_accounted h hok hstep).each

end Accounting

def answeredActions : List Action :=
  .receive [helper] ⟨[], pure ()⟩ true true (.createMethodCall ⟨0x1234, 1, 1, 0⟩ 0x22) :: twoReplies

theorem unused_at_start (s : State) (hpending : s.pending = fun _ => ∅) (hreplies : s.replies = []) : Unused s := by
  intro dispatcher
  rw [hpending, hreplies]
  exact ⟨rfl, fun _ h => by cases h⟩

theorem helper_withReply (message : VsomeipMessage) : ∀ other ∈ [helper], ∀ dispatcher,
    other.stubDispatcherTable message.method = some dispatcher → WithReply dispatcher := by
  intro other hother dispatcher hfound
  rw [List.mem_singleton.1 hother] at hfound
  change (if message.method = 0x21 then some _ else none) = some dispatcher at hfound
  split at hfound
  · cases hfound
    trivial
  · cases hfound

theorem answeredActions_answering : Meets step Answering initial answeredActions := by
  refine ⟨⟨unused_at_start _ rfl rfl, rfl, rfl, fun _ => helper_withReply _⟩, fun s hs => ?_⟩
  cases hs
  refine ⟨⟨unused_at_start _ rfl rfl, rfl, rfl, fun _ => helper_withReply _⟩, fun t ht => ?_⟩
  exact ⟨trivial, fun _ _ => ⟨trivial, fun _ _ => ⟨rfl, fun _ _ => ⟨rfl, fun _ _ => trivial⟩⟩⟩⟩

theorem answeredActions_counting : Meets step Counting initial answeredActions := by
  refine ⟨unused_at_start _ rfl rfl, fun s hs => ?_⟩
  cases hs
  refine ⟨unused_at_start _ rfl rfl, fun t ht => ?_⟩
  exact ⟨trivial, fun _ _ => ⟨trivial, fun _ _ => ⟨trivial, fun _ _ => ⟨trivial, fun _ _ => trivial⟩⟩⟩⟩

theorem answered_for_their_requests : ∃ s, run step initial answeredActions = some s ∧
    ∀ number answer, (number, answer) ∈ s.sent →
      ∃ request, (messagesReceived answeredActions)[number]? = some request ∧ AnswerTo request answer := by
  have hrun : (run step initial answeredActions).isSome := rfl
  rcases Option.isSome_iff_exists.1 hrun with ⟨s, hs⟩
  exact ⟨s, hs, answers_are_for_their_requests hs answeredActions_counting⟩

theorem answered_not_lost : ∃ s, run step initial answeredActions = some s ∧
    ∀ number request, (messagesReceived answeredActions)[number]? = some request →
      request.messageType = .request → Accounted number s := by
  have hrun : (run step initial answeredActions).isSome := rfl
  rcases Option.isSome_iff_exists.1 hrun with ⟨s, hs⟩
  exact ⟨s, hs, requests_are_not_lost hs answeredActions_answering⟩

end SomeIPRuntime.StubReplies
