import SomeIPRuntime.Serialization

set_option autoImplicit false

namespace SomeIPRuntime.StubDispatchers
open InputStream (Read)
open OutputStream (Write)
open Serialization ProgramRuns

def readsArguments (isLittleEndian : Bool) (inArgs : List (Read Unit)) (message : VsomeipMessage) :
    Except Halt Bool :=
  if inArgs.isEmpty then .ok true
  else
    match InputStream.deserialize inArgs (InputStream.create message.payload isLittleEndian) with
    | .ok result _ => .ok result.1
    | .error halt _ => .error halt

/-- What has become of a message: what was handed to `sendMessage`, what `dispatchMessage` returns,
    and whether the stub has been given a reply callback. -/
structure Dispatched where
  handed : Option Handed
  isHandled : Bool
  isPending : Bool

def errorMessage (message : VsomeipMessage) (returnCode : ReturnCode) : Handed :=
  ⟨message.createErrorResponseMessage returnCode, none⟩

def MethodStubDispatcher.dispatchMessage (isImplemented isLittleEndian : Bool)
    (inArgs : List (Read Unit)) (message : VsomeipMessage) : Except Halt Dispatched :=
  if !isImplemented then .ok ⟨none, false, false⟩
  else do
    let success ← readsArguments isLittleEndian inArgs message
    pure ⟨none, success, false⟩

def MethodWithReplyStubDispatcher.dispatchMessage (isImplemented isLittleEndian : Bool)
    (inArgs : List (Read Unit)) (message : VsomeipMessage) : Except Halt Dispatched :=
  if !isImplemented then .ok ⟨none, false, false⟩
  else if !message.isRequestType then .ok ⟨some (errorMessage message .wrongMessageType), true, false⟩
  else do
    let success ← readsArguments isLittleEndian inArgs message
    pure ⟨none, success, success⟩

/-- `isConnected` is what `sendMessage` of the connection returns, which has sent the message then. -/
def MethodWithReplyAdapterDispatcher.dispatchMessage (isImplemented isLittleEndian : Bool)
    (inArgs : List (Read Unit)) (outArgs : List (Write Unit)) (isConnected : Bool)
    (message : VsomeipMessage) : Except Halt Dispatched :=
  if !isImplemented then .ok ⟨none, false, false⟩
  else if !message.isRequestType then .ok ⟨some (errorMessage message .wrongMessageType), true, false⟩
  else do
    if ← readsArguments isLittleEndian inArgs message then
      match ← writeArguments isLittleEndian outArgs message.createResponseMessage with
      | none => pure ⟨none, false, false⟩
      | some handed => pure ⟨some handed, isConnected, false⟩
    else
      pure ⟨none, false, false⟩

def GetAttributeStubDispatcher.sendAttributeValueReply (isLittleEndian : Bool) (value : Write Unit)
    (isConnected : Bool) (message : VsomeipMessage) : Except Halt Dispatched :=
  match value (OutputStream.create isLittleEndian) with
  | .ok _ o => (fun handed => ⟨some handed, isConnected, false⟩) <$>
      flushInto message.createResponseMessage o
  | .error halt _ => .error halt

def GetAttributeStubDispatcher.dispatchMessage (isImplemented isLittleEndian : Bool)
    (value : Write Unit) (isConnected : Bool) (message : VsomeipMessage) : Except Halt Dispatched :=
  if !isImplemented then .ok ⟨none, false, false⟩
  else sendAttributeValueReply isLittleEndian value isConnected message

/-- `setAttributeValue`, the result of which `dispatchMessage` returns. -/
def SetAttributeStubDispatcher.dispatchMessage (isImplemented isLittleEndian : Bool)
    (itsValue : Read Unit) (value : Write Unit) (isConnected : Bool) (message : VsomeipMessage) :
    Except Halt Dispatched :=
  if !isImplemented then .ok ⟨none, false, false⟩
  else do
    if ← readsArguments isLittleEndian [itsValue] message then
      GetAttributeStubDispatcher.sendAttributeValueReply isLittleEndian value isConnected message
    else
      pure ⟨none, false, false⟩

def SetObservableAttributeStubDispatcher.dispatchMessage :=
  SetAttributeStubDispatcher.dispatchMessage

/-- A dispatcher with its members; one that keeps `pending_` calls has an identity. -/
inductive Dispatcher
  | method (isImplemented isLittleEndian : Bool) (inArgs : List (Read Unit))
  | methodWithReply (dispatcher : ℕ) (isImplemented isLittleEndian : Bool) (inArgs : List (Read Unit))
  | adapterMethod (isImplemented isLittleEndian : Bool) (inArgs : List (Read Unit))
  | getAttribute (isImplemented isLittleEndian : Bool)
  | setAttribute (isImplemented isLittleEndian : Bool) (itsValue : Read Unit)
  | setObservableAttribute (isImplemented isLittleEndian : Bool) (itsValue : Read Unit)

/-- What the stub answers at once: the out arguments of an adapter method, or the value of an
    attribute. -/
structure StubAnswer where
  outArgs : List (Write Unit)
  value : Write Unit

def Dispatcher.dispatchMessage (dispatcher : Dispatcher) (answer : StubAnswer) (isConnected : Bool)
    (message : VsomeipMessage) : Except Halt Dispatched :=
  match dispatcher with
  | .method isImplemented isLittleEndian inArgs =>
    MethodStubDispatcher.dispatchMessage isImplemented isLittleEndian inArgs message
  | .methodWithReply _ isImplemented isLittleEndian inArgs =>
    MethodWithReplyStubDispatcher.dispatchMessage isImplemented isLittleEndian inArgs message
  | .adapterMethod isImplemented isLittleEndian inArgs =>
    MethodWithReplyAdapterDispatcher.dispatchMessage isImplemented isLittleEndian inArgs
      answer.outArgs isConnected message
  | .getAttribute isImplemented isLittleEndian =>
    GetAttributeStubDispatcher.dispatchMessage isImplemented isLittleEndian answer.value isConnected
      message
  | .setAttribute isImplemented isLittleEndian itsValue =>
    SetAttributeStubDispatcher.dispatchMessage isImplemented isLittleEndian itsValue answer.value
      isConnected message
  | .setObservableAttribute isImplemented isLittleEndian itsValue =>
    SetObservableAttributeStubDispatcher.dispatchMessage isImplemented isLittleEndian itsValue
      answer.value isConnected message

def Dispatcher.waits (dispatcher : Dispatcher) (dispatched : Dispatched) : Option ℕ :=
  match dispatcher with
  | .methodWithReply dispatcher _ _ _ => if dispatched.isPending then some dispatcher else none
  | _ => none

structure Helper where
  hasStub : Bool
  stubDispatcherTable : MethodId → Option Dispatcher

structure Handling where
  sent : List VsomeipMessage
  waiting : Option ℕ

/-- `sendMessage` sends what it gets while the connection is there. -/
def sentBy (isConnected : Bool) (handed : Option Handed) : List VsomeipMessage :=
  match handed with
  | some handed => if isConnected then [handed.message.withoutReply] else []
  | none => []

/-- `isConnected` and `laterConnected` are the answers of the connection to the dispatcher, and to
    the error message that is sent in its place. -/
def findDispatcherAndHandle (answer : StubAnswer) (isConnected laterConnected : Bool)
    (message : VsomeipMessage) : List Helper → Except Halt Handling
  | [] => .ok ⟨sentBy isConnected (some (errorMessage message .unknownMethod)), none⟩
  | helper :: rest =>
    match helper.stubDispatcherTable message.method, helper.hasStub with
    | some dispatcher, true => do
      let dispatched ← dispatcher.dispatchMessage answer isConnected message
      let sent := sentBy isConnected dispatched.handed
      if !dispatched.isHandled && message.isRequestType then
        pure ⟨sent ++ sentBy laterConnected (some (errorMessage message .malformedMessage)),
          dispatcher.waits dispatched⟩
      else
        pure ⟨sent, dispatcher.waits dispatched⟩
    | _, _ => findDispatcherAndHandle answer isConnected laterConnected message rest

/-- What was sent is the answer: no error message follows, and no reply of the stub. -/
structure Answers (isConnected : Bool) (dispatched : Dispatched) : Prop where
  handled : sentBy isConnected dispatched.handed ≠ [] → dispatched.isHandled = true
  pending : dispatched.isPending = true → dispatched.handed = none ∧ dispatched.isHandled = true

variable {isConnected laterConnected : Bool} {message : VsomeipMessage}

theorem answers_nothing (isHandled : Bool) : Answers isConnected ⟨none, isHandled, false⟩ :=
  ⟨fun h => absurd rfl h, fun h => (by cases h)⟩

theorem answers_handled (handed : Handed) : Answers isConnected ⟨some handed, true, false⟩ :=
  ⟨fun _ => rfl, fun h => (by cases h)⟩

/-- A reply that is not sent leaves the message to the error message. -/
theorem answers_sent (handed : Handed) : Answers isConnected ⟨some handed, isConnected, false⟩ := by
  refine ⟨fun h => ?_, fun h => (by cases h)⟩
  cases isConnected with
  | true => rfl
  | false => exact absurd rfl h

theorem method_answers (isImplemented isLittleEndian : Bool) (inArgs : List (Read Unit)) :
    Ensures (MethodStubDispatcher.dispatchMessage isImplemented isLittleEndian inArgs message)
      (Answers isConnected) :=
  ensures_ite (fun _ => ensures_ok (answers_nothing false))
    fun _ => ensures_bind fun success _ => ensures_ok (answers_nothing success)

theorem methodWithReply_answers (isImplemented isLittleEndian : Bool) (inArgs : List (Read Unit)) :
    Ensures (MethodWithReplyStubDispatcher.dispatchMessage isImplemented isLittleEndian inArgs message)
      (Answers isConnected) := by
  refine ensures_ite (fun _ => ensures_ok (answers_nothing false)) fun _ => ?_
  refine ensures_ite (fun _ => ensures_ok (answers_handled _)) fun _ => ?_
  exact ensures_bind fun success _ =>
    ensures_ok ⟨fun h => absurd rfl h, fun hsuccess => ⟨rfl, hsuccess⟩⟩

theorem adapterMethod_answers (isImplemented isLittleEndian : Bool) (inArgs : List (Read Unit))
    (outArgs : List (Write Unit)) :
    Ensures (MethodWithReplyAdapterDispatcher.dispatchMessage isImplemented isLittleEndian inArgs
      outArgs isConnected message) (Answers isConnected) := by
  refine ensures_ite (fun _ => ensures_ok (answers_nothing false)) fun _ => ?_
  refine ensures_ite (fun _ => ensures_ok (answers_handled _)) fun _ => ?_
  refine ensures_bind fun success _ => ensures_ite (fun _ => ?_) fun _ => ensures_ok (answers_nothing false)
  refine ensures_bind fun written _ => ?_
  cases written with
  | none => exact ensures_ok (answers_nothing false)
  | some handed => exact ensures_ok (answers_sent handed)

theorem attributeValueReply_answers (isLittleEndian : Bool) (value : Write Unit) :
    Ensures (GetAttributeStubDispatcher.sendAttributeValueReply isLittleEndian value isConnected message)
      (Answers isConnected) := by
  unfold GetAttributeStubDispatcher.sendAttributeValueReply
  split
  · exact ensures_map fun handed _ => answers_sent handed
  · exact ensures_error _

theorem getAttribute_answers (isImplemented isLittleEndian : Bool) (value : Write Unit) :
    Ensures (GetAttributeStubDispatcher.dispatchMessage isImplemented isLittleEndian value isConnected
      message) (Answers isConnected) :=
  ensures_ite (fun _ => ensures_ok (answers_nothing false))
    fun _ => attributeValueReply_answers isLittleEndian value

theorem setAttribute_answers (isImplemented isLittleEndian : Bool) (itsValue : Read Unit)
    (value : Write Unit) :
    Ensures (SetAttributeStubDispatcher.dispatchMessage isImplemented isLittleEndian itsValue value
      isConnected message) (Answers isConnected) := by
  refine ensures_ite (fun _ => ensures_ok (answers_nothing false)) fun _ => ?_
  exact ensures_bind fun success _ =>
    ensures_ite (fun _ => attributeValueReply_answers isLittleEndian value)
      fun _ => ensures_ok (answers_nothing false)

theorem dispatchMessage_answers (dispatcher : Dispatcher) (answer : StubAnswer) :
    Ensures (dispatcher.dispatchMessage answer isConnected message) (Answers isConnected) := by
  cases dispatcher with
  | method isImplemented isLittleEndian inArgs => exact method_answers _ _ _
  | methodWithReply dispatcher isImplemented isLittleEndian inArgs => exact methodWithReply_answers _ _ _
  | adapterMethod isImplemented isLittleEndian inArgs => exact adapterMethod_answers _ _ _ _
  | getAttribute isImplemented isLittleEndian => exact getAttribute_answers _ _ _
  | setAttribute isImplemented isLittleEndian itsValue => exact setAttribute_answers _ _ _ _
  | setObservableAttribute isImplemented isLittleEndian itsValue => exact setAttribute_answers _ _ _ _

theorem sentBy_length (handed : Option Handed) : (sentBy isConnected handed).length ≤ 1 := by
  cases handed with
  | none => exact Nat.zero_le 1
  | some handed =>
    cases isConnected with
    | true => exact le_refl 1
    | false => exact Nat.zero_le 1

theorem waits_pending {dispatcher : Dispatcher} {dispatched : Dispatched} {waiting : ℕ}
    (h : dispatcher.waits dispatched = some waiting) : dispatched.isPending = true := by
  cases dispatcher with
  | methodWithReply dispatcher isImplemented isLittleEndian inArgs =>
    change (if dispatched.isPending then some dispatcher else none) = some waiting at h
    by_contra hpending
    rw [if_neg hpending] at h
    cases h
  | _ => cases h

structure Handling.AnswersOnce (handling : Handling) : Prop where
  once : handling.sent.length ≤ 1
  waiting : handling.waiting ≠ none → handling.sent = []

theorem findDispatcherAndHandle_once (answer : StubAnswer) (helpers : List Helper) :
    Ensures (findDispatcherAndHandle answer isConnected laterConnected message helpers)
      Handling.AnswersOnce := by
  induction helpers with
  | nil => exact ensures_ok ⟨sentBy_length (some _), fun h => absurd rfl h⟩
  | cons helper rest ih =>
    unfold findDispatcherAndHandle
    split
    · rename_i dispatcher _ _
      refine ensures_bind fun dispatched hrun => ?_
      have hanswers := dispatchMessage_answers dispatcher answer dispatched hrun
      have hwaiting : dispatcher.waits dispatched ≠ none →
          sentBy isConnected dispatched.handed = [] ∧ dispatched.isHandled = true := by
        intro hne
        obtain ⟨waiting, hsome⟩ := Option.ne_none_iff_exists'.1 hne
        obtain ⟨hnone, hhandled⟩ := hanswers.pending (waits_pending hsome)
        rw [hnone]
        exact ⟨rfl, hhandled⟩
      refine ensures_ite (fun herror => ensures_ok ⟨?_, fun hne => ?_⟩)
        fun _ => ensures_ok ⟨sentBy_length _, fun hne => (hwaiting hne).1⟩
      · have hnothing : sentBy isConnected dispatched.handed = [] := by
          by_contra hsent
          rw [hanswers.handled hsent] at herror
          cases herror
        rw [hnothing, List.nil_append]
        exact sentBy_length (some _)
      · rw [(hwaiting hne).2] at herror
        cases herror
    · exact ih

end SomeIPRuntime.StubDispatchers
