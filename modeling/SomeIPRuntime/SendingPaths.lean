import SomeIPRuntime.MethodCalls
import SomeIPRuntime.StubReplies

set_option autoImplicit false

namespace SomeIPRuntime.SendingPaths
open InputStream (Read)
open OutputStream (Write)
open Serialization ProgramRuns MethodCalls StubDispatchers

/-- `StubEventHelper::sendEvent`, to all subscribers or to one client. -/
def sendEvent (address : Address) (event : EventId) (isLittleEndian : Bool)
    (inArgs : List (Write Unit)) : Except Halt (Option Handed) :=
  writeArguments isLittleEndian inArgs (.createNotificationMessage address event)

inductive SendingPath : Type 1
  | callMethod (isAvailable : Bool) (methodCall : VsomeipMessage) (isLittleEndian : Bool)
      (inArgs : List (Write Unit)) (connection : VsomeipMessage → Bool)
  | callMethodWithReply {α : Type} (isAvailable : Bool) (methodCall : VsomeipMessage)
      (isLittleEndian : Bool) (inArgs : List (Write Unit))
      (connection : VsomeipMessage → Option VsomeipMessage) (outArgs : OutArgs α) (values : α)
  | callMethodAsync (message : VsomeipMessage) (isLittleEndian : Bool) (inArgs : List (Write Unit))
  | sendEvent (address : Address) (event : EventId) (isLittleEndian : Bool)
      (inArgs : List (Write Unit))
  /-- `sendReplyMessageHelper`, with the response that is pending -/
  | replyMethod (isLittleEndian : Bool) (outArgs : List (Write Unit)) (itsReply : VsomeipMessage)
  | dispatch (dispatcher : Dispatcher) (answer : StubAnswer) (isConnected : Bool)
      (message : VsomeipMessage)

def SendingPath.handed : SendingPath → Except Halt (Option Handed)
  | .callMethod isAvailable methodCall isLittleEndian inArgs connection =>
    Called.handed <$> MethodCalls.callMethod isAvailable methodCall isLittleEndian inArgs connection
  | .callMethodWithReply isAvailable methodCall isLittleEndian inArgs connection outArgs values =>
    Called.handed <$> MethodCalls.callMethodWithReply isAvailable methodCall isLittleEndian inArgs
      connection outArgs values
  | .callMethodAsync message isLittleEndian inArgs =>
    Prod.fst <$> MethodCalls.callMethodAsync message isLittleEndian inArgs
  | .sendEvent address event isLittleEndian inArgs =>
    SendingPaths.sendEvent address event isLittleEndian inArgs
  | .replyMethod isLittleEndian outArgs itsReply => writeArguments isLittleEndian outArgs itsReply
  | .dispatch dispatcher answer isConnected message =>
    Dispatched.handed <$> dispatcher.dispatchMessage answer isConnected message

/-- The value is written to a new stream without an error. -/
def Fits (isLittleEndian : Bool) (value : Write Unit) : Prop :=
  ∀ o, value (OutputStream.create isLittleEndian) = .ok () o → o.errorOccurred = false

/-- Where the path replies with the value of an attribute, the value fits its deployment. -/
def SendingPath.AttributeFits : SendingPath → Prop
  | .dispatch (.getAttribute isImplemented isLittleEndian) answer _ _ =>
    isImplemented = true → Fits isLittleEndian answer.value
  | .dispatch (.setAttribute isImplemented isLittleEndian itsValue) answer _ message
  | .dispatch (.setObservableAttribute isImplemented isLittleEndian itsValue) answer _ message =>
    isImplemented = true → readsArguments isLittleEndian [itsValue] message = .ok true →
      Fits isLittleEndian answer.value
  | _ => True

/-- A path that hands over what was written with an error cannot do this. -/
def Intact (handed : Option Handed) : Prop := ∀ h ∈ handed, h.Intact

theorem intact_none : Intact none := fun _ h => (by cases h)

theorem intact_error (message : VsomeipMessage) (returnCode : ReturnCode) :
    Intact (some (errorMessage message returnCode)) := by
  intro h hmem o ho
  cases hmem
  cases ho

theorem writeArguments_ensures (isLittleEndian : Bool) (arguments : List (Write Unit))
    (message : VsomeipMessage) : Ensures (writeArguments isLittleEndian arguments message) Intact := by
  intro handed hrun h hmem
  cases hmem
  exact writeArguments_intact hrun

theorem callMethod_intact (isAvailable : Bool) (methodCall : VsomeipMessage) (isLittleEndian : Bool)
    (inArgs : List (Write Unit)) (connection : VsomeipMessage → Bool) :
    Ensures (MethodCalls.callMethod isAvailable methodCall isLittleEndian inArgs connection)
      fun called => Intact called.handed := by
  refine ensures_ite (fun _ => ensures_bind fun written hrun => ?_) fun _ => ensures_ok intact_none
  have hintact := writeArguments_ensures _ _ _ written hrun
  cases written with
  | none => exact ensures_ok hintact
  | some handed => exact ensures_ite (fun _ => ensures_ok hintact) fun _ => ensures_ok hintact

theorem callMethodWithReply_intact {α : Type} (isAvailable : Bool) (methodCall : VsomeipMessage)
    (isLittleEndian : Bool) (inArgs : List (Write Unit))
    (connection : VsomeipMessage → Option VsomeipMessage) (outArgs : OutArgs α) (values : α) :
    Ensures (MethodCalls.callMethodWithReply isAvailable methodCall isLittleEndian inArgs connection
      outArgs values) fun called => Intact called.handed := by
  refine ensures_ite (fun _ => ensures_bind fun written hrun => ?_) fun _ => ensures_ok intact_none
  have hintact := writeArguments_ensures _ _ _ written hrun
  cases written with
  | none => exact ensures_ok hintact
  | some handed => exact ensures_bind fun _ _ => ensures_ok hintact

theorem callMethodAsync_intact (message : VsomeipMessage) (isLittleEndian : Bool)
    (inArgs : List (Write Unit)) :
    Ensures (MethodCalls.callMethodAsync message isLittleEndian inArgs) fun result => Intact result.1 := by
  refine ensures_bind fun written hrun => ?_
  have hintact := writeArguments_ensures _ _ _ written hrun
  cases written with
  | none => exact ensures_ok hintact
  | some handed => exact ensures_ok hintact

theorem method_intact (isImplemented isLittleEndian : Bool) (inArgs : List (Read Unit))
    (message : VsomeipMessage) :
    Ensures (MethodStubDispatcher.dispatchMessage isImplemented isLittleEndian inArgs message)
      fun dispatched => Intact dispatched.handed :=
  ensures_ite (fun _ => ensures_ok intact_none) fun _ => ensures_bind fun _ _ => ensures_ok intact_none

theorem methodWithReply_intact (isImplemented isLittleEndian : Bool) (inArgs : List (Read Unit))
    (message : VsomeipMessage) :
    Ensures (MethodWithReplyStubDispatcher.dispatchMessage isImplemented isLittleEndian inArgs message)
      fun dispatched => Intact dispatched.handed := by
  refine ensures_ite (fun _ => ensures_ok intact_none) fun _ => ?_
  refine ensures_ite (fun _ => ensures_ok (intact_error _ _)) fun _ => ?_
  exact ensures_bind fun _ _ => ensures_ok intact_none

theorem adapterMethod_intact (isImplemented isLittleEndian : Bool) (inArgs : List (Read Unit))
    (outArgs : List (Write Unit)) (isConnected : Bool) (message : VsomeipMessage) :
    Ensures (MethodWithReplyAdapterDispatcher.dispatchMessage isImplemented isLittleEndian inArgs
      outArgs isConnected message) fun dispatched => Intact dispatched.handed := by
  refine ensures_ite (fun _ => ensures_ok intact_none) fun _ => ?_
  refine ensures_ite (fun _ => ensures_ok (intact_error _ _)) fun _ => ?_
  refine ensures_bind fun success _ => ensures_ite (fun _ => ?_) fun _ => ensures_ok intact_none
  refine ensures_bind fun written hrun => ?_
  have hintact := writeArguments_ensures _ _ _ written hrun
  cases written with
  | none => exact ensures_ok hintact
  | some handed => exact ensures_ok hintact

theorem attributeValueReply_intact_iff (isLittleEndian : Bool) (value : Write Unit)
    (isConnected : Bool) (message : VsomeipMessage) :
    Ensures (GetAttributeStubDispatcher.sendAttributeValueReply isLittleEndian value isConnected message)
        (fun dispatched => Intact dispatched.handed) ↔ Fits isLittleEndian value := by
  unfold GetAttributeStubDispatcher.sendAttributeValueReply Fits
  cases hrun : value (OutputStream.create isLittleEndian) with
  | error halt t => exact iff_of_true (ensures_error halt) fun o ho => (by cases ho)
  | ok u o =>
    obtain ⟨handed, hflush⟩ := flushInto_ok message.createResponseMessage o
    have hwritten := flushInto_written hflush
    dsimp only
    rw [hflush]
    refine ⟨fun h t ht => ?_, fun h => ensures_ok fun sent hsent t ht => ?_⟩
    · cases ht
      exact h _ rfl handed rfl o hwritten
    · cases hsent
      rw [hwritten] at ht
      cases ht
      exact h o rfl

theorem getAttribute_intact_iff (isImplemented isLittleEndian : Bool) (value : Write Unit)
    (isConnected : Bool) (message : VsomeipMessage) :
    Ensures (GetAttributeStubDispatcher.dispatchMessage isImplemented isLittleEndian value isConnected
        message) (fun dispatched => Intact dispatched.handed) ↔
      (isImplemented = true → Fits isLittleEndian value) := by
  cases isImplemented with
  | false => exact iff_of_true (ensures_ok intact_none) fun h => (by cases h)
  | true =>
    refine (attributeValueReply_intact_iff isLittleEndian value isConnected message).trans ?_
    exact ⟨fun h _ => h, fun h => h rfl⟩

theorem setAttribute_intact_iff (isImplemented isLittleEndian : Bool) (itsValue : Read Unit)
    (value : Write Unit) (isConnected : Bool) (message : VsomeipMessage) :
    Ensures (SetAttributeStubDispatcher.dispatchMessage isImplemented isLittleEndian itsValue value
        isConnected message) (fun dispatched => Intact dispatched.handed) ↔
      (isImplemented = true → readsArguments isLittleEndian [itsValue] message = .ok true →
        Fits isLittleEndian value) := by
  cases isImplemented with
  | false => exact iff_of_true (ensures_ok intact_none) fun h => (by cases h)
  | true =>
    unfold SetAttributeStubDispatcher.dispatchMessage
    cases hread : readsArguments isLittleEndian [itsValue] message with
    | error halt => exact iff_of_true (ensures_error halt) fun _ h => (by cases h)
    | ok success =>
      cases success with
      | false => exact iff_of_true (ensures_ok intact_none) fun _ h => (by cases h)
      | true =>
        refine (attributeValueReply_intact_iff isLittleEndian value isConnected message).trans ?_
        exact ⟨fun h _ _ => h, fun h => h rfl rfl⟩

/-- A path hands over only what was written without an error, exactly if it does not reply with the
    value of an attribute, or with one that fits. -/
theorem handed_intact_iff (path : SendingPath) :
    Ensures path.handed Intact ↔ path.AttributeFits := by
  cases path with
  | callMethod isAvailable methodCall isLittleEndian inArgs connection =>
    exact iff_of_true (ensures_map (callMethod_intact _ _ _ _ _)) trivial
  | callMethodWithReply isAvailable methodCall isLittleEndian inArgs connection outArgs values =>
    exact iff_of_true (ensures_map (callMethodWithReply_intact _ _ _ _ _ _ _)) trivial
  | callMethodAsync message isLittleEndian inArgs =>
    exact iff_of_true (ensures_map (callMethodAsync_intact _ _ _)) trivial
  | sendEvent address event isLittleEndian inArgs =>
    exact iff_of_true (writeArguments_ensures _ _ _) trivial
  | replyMethod isLittleEndian outArgs itsReply =>
    exact iff_of_true (writeArguments_ensures _ _ _) trivial
  | dispatch dispatcher answer isConnected message =>
    refine ensures_map_iff.trans ?_
    cases dispatcher with
    | method isImplemented isLittleEndian inArgs => exact iff_of_true (method_intact _ _ _ _) trivial
    | methodWithReply dispatcher isImplemented isLittleEndian inArgs =>
      exact iff_of_true (methodWithReply_intact _ _ _ _) trivial
    | adapterMethod isImplemented isLittleEndian inArgs =>
      exact iff_of_true (adapterMethod_intact _ _ _ _ _ _) trivial
    | getAttribute isImplemented isLittleEndian => exact getAttribute_intact_iff _ _ _ _ _
    | setAttribute isImplemented isLittleEndian itsValue => exact setAttribute_intact_iff _ _ _ _ _ _
    | setObservableAttribute isImplemented isLittleEndian itsValue =>
      exact setAttribute_intact_iff _ _ _ _ _ _

def shortBuffer : Write Unit := OutputStream.writeByteBuffer (some ⟨3, 10, 1⟩) [1, 2]

/-- The value of an attribute that is too short for its deployment is sent all the same. -/
theorem short_attribute_sent :
    ¬ ∀ path : SendingPath, Ensures path.handed Intact := by
  intro h
  have hget := (attributeValueReply_intact_iff true shortBuffer true
    (.createMethodCall ⟨0x1234, 1, 1, 0⟩ 0x21)).1
      (ensures_map_iff.1 (h (.dispatch (.getAttribute true true) ⟨[], shortBuffer⟩ true
        (.createMethodCall ⟨0x1234, 1, 1, 0⟩ 0x21))))
  have herror := hget _ rfl
  cases herror

end SomeIPRuntime.SendingPaths
