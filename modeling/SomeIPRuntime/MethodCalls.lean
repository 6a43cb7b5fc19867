import SomeIPRuntime.Serialization

set_option autoImplicit false

namespace SomeIPRuntime.MethodCalls
open InputStream (Read)
open OutputStream (Write)
open Serialization

inductive CallStatus
  | success
  | notAvailable
  | remoteError
  | serializationError
  | invalidValue
  deriving DecidableEq, Repr

/-- What has become of a call: the message that was handed to the connection, and what the caller
    gets. -/
structure Called (α : Type) where
  handed : Option Handed
  callStatus : CallStatus
  outArgs : α

def callMethod (isAvailable : Bool) (methodCall : VsomeipMessage) (isLittleEndian : Bool)
    (inArgs : List (Write Unit)) (connection : VsomeipMessage → Bool) : Except Halt (Called Unit) :=
  if isAvailable then do
    match ← writeArguments isLittleEndian inArgs methodCall with
    | none => pure ⟨none, .serializationError, ()⟩
    | some handed =>
      if connection handed.message then pure ⟨some handed, .success, ()⟩
      else pure ⟨some handed, .remoteError, ()⟩
  else
    pure ⟨none, .notAvailable, ()⟩

def takeReply {α : Type} (isLittleEndian : Bool) (outArgs : OutArgs α) (values : α)
    (reply : Option VsomeipMessage) : Except Halt (CallStatus × α) :=
  match reply with
  | none => .ok (.remoteError, values)
  | some reply =>
    if !reply.isResponseType then .ok (.remoteError, values)
    else if !reply.isValidCrc then .ok (.invalidValue, values)
    else if outArgs.isEmpty then .ok (.success, values)
    else do
      let result ← readArguments isLittleEndian outArgs values reply
      pure (if result.1 then .success else .serializationError, result.2)

/-- `connection` is `sendMessageWithReplyAndBlock` of the connection. -/
def callMethodWithReply {α : Type} (isAvailable : Bool) (methodCall : VsomeipMessage)
    (isLittleEndian : Bool) (inArgs : List (Write Unit))
    (connection : VsomeipMessage → Option VsomeipMessage) (outArgs : OutArgs α) (values : α) :
    Except Halt (Called α) :=
  if isAvailable then do
    match ← writeArguments isLittleEndian inArgs methodCall with
    | none => pure ⟨none, .serializationError, values⟩
    | some handed =>
      let result ← takeReply isLittleEndian outArgs values (connection handed.message)
      pure ⟨some handed, result.1, result.2⟩
  else
    pure ⟨none, .notAvailable, values⟩

/-- The message of `callMethodAsync`, which goes to `sendMessageWithReplyAsync` now or when the
    service is there; or the status that the future has at once. -/
def callMethodAsync (message : VsomeipMessage) (isLittleEndian : Bool) (inArgs : List (Write Unit)) :
    Except Halt (Option Handed × Option CallStatus) := do
  match ← writeArguments isLittleEndian inArgs message with
  | none => pure (none, some .serializationError)
  | some handed => pure (some handed, none)

/-- The status that `Connection::handleProxyReceive` passes to the handler of a call. -/
def replyStatus : ReturnCode → CallStatus
  | .ok => .success
  | .notReachable => .notAvailable
  | _ => .remoteError

/-- `ProxyAsyncCallbackHandler::handleMessageReply`: what the callback gets. -/
def handleMessageReply {α : Type} (isLittleEndian : Bool) (argTuple : OutArgs α) (values : α)
    (callStatus : CallStatus) (message : VsomeipMessage) : Except Halt (CallStatus × α) :=
  if callStatus = .success then
    if !message.isErrorType then
      if !message.isValidCrc then .ok (.invalidValue, values)
      else do
        let result ← readArguments isLittleEndian argTuple values message
        pure (if result.1 then .success else .serializationError, result.2)
    else .ok (.remoteError, values)
  else .ok (callStatus, values)

def handleProxyReceive {α : Type} (isLittleEndian : Bool) (argTuple : OutArgs α) (values : α)
    (message : VsomeipMessage) : Except Halt (CallStatus × α) :=
  handleMessageReply isLittleEndian argTuple values (replyStatus message.returnCode) message

section Replies
variable {α : Type} {isLittleEndian : Bool} {outArgs : OutArgs α} {values : α}
  {reply : VsomeipMessage}

theorem readArguments_nil (outArgs : OutArgs α) (hempty : outArgs.isEmpty = true) (values : α)
    (message : VsomeipMessage) :
    readArguments isLittleEndian outArgs values message = .ok (true, values) := by
  cases outArgs with
  | nil => rfl
  | cons argument rest => cases hempty

theorem takeReply_error (h : reply.messageType = .error) :
    takeReply isLittleEndian outArgs values (some reply) = .ok (.remoteError, values) := by
  have hresponse : reply.isResponseType = false := by
    unfold VsomeipMessage.isResponseType
    rw [h]
    rfl
  simp [takeReply, hresponse]

/-- A response is taken by both paths alike once its return code has been accepted. -/
theorem takeReply_response (h : reply.messageType = .response) :
    takeReply isLittleEndian outArgs values (some reply) =
      handleMessageReply isLittleEndian outArgs values .success reply := by
  have hresponse : reply.isResponseType = true := decide_eq_true h
  have herror : reply.isErrorType = false := by
    unfold VsomeipMessage.isErrorType
    rw [h]
    rfl
  unfold takeReply handleMessageReply
  simp only [hresponse, herror, Bool.not_true, Bool.not_false, if_true, if_false, Bool.false_eq_true]
  split
  · rfl
  · split
    · rename_i hempty
      rw [readArguments_nil outArgs hempty]
      rfl
    · rfl

/-- What is made of a response is no failure of the service. -/
theorem takeReply_status (h : reply.messageType = .response) {callStatus : CallStatus} {result : α}
    (htake : takeReply isLittleEndian outArgs values (some reply) = .ok (callStatus, result)) :
    callStatus ≠ .notAvailable ∧ callStatus ≠ .remoteError := by
  have hresponse : reply.isResponseType = true := decide_eq_true h
  unfold takeReply at htake
  simp only [hresponse, Bool.not_true, Bool.false_eq_true, if_false] at htake
  split at htake
  · cases htake
    decide
  · split at htake
    · cases htake
      decide
    · cases hread : readArguments isLittleEndian outArgs values reply with
      | error halt =>
        rw [hread] at htake
        cases htake
      | ok read =>
        rw [hread] at htake
        cases htake
        split <;> decide

theorem handleMessageReply_failed {callStatus : CallStatus} (h : callStatus ≠ .success) :
    handleMessageReply isLittleEndian outArgs values callStatus reply = .ok (callStatus, values) :=
  if_neg h

theorem handleMessageReply_error (h : reply.messageType = .error) :
    handleMessageReply isLittleEndian outArgs values .success reply = .ok (.remoteError, values) := by
  have herror : reply.isErrorType = true := decide_eq_true h
  simp [handleMessageReply, herror]

theorem replyStatus_eq_success {returnCode : ReturnCode} :
    replyStatus returnCode = .success ↔ returnCode = .ok := by
  cases returnCode <;> simp [replyStatus]

theorem replyStatus_eq_remoteError {returnCode : ReturnCode} :
    replyStatus returnCode = .remoteError ↔ returnCode ≠ .ok ∧ returnCode ≠ .notReachable := by
  cases returnCode <;> simp [replyStatus]

theorem takeReply_eq_iff (htype : reply.messageType = .response ∨ reply.messageType = .error) :
    takeReply isLittleEndian outArgs values (some reply) =
        handleProxyReceive isLittleEndian outArgs values reply ↔
      (reply.messageType = .response ∧ reply.returnCode = .ok) ∨
        (reply.messageType = .error ∧ reply.returnCode ≠ .notReachable) := by
  unfold handleProxyReceive
  by_cases hok : reply.returnCode = .ok
  · rw [replyStatus_eq_success.2 hok]
    refine iff_of_true ?_ ?_
    · cases htype with
      | inl hresponse => exact takeReply_response hresponse
      | inr herror => rw [takeReply_error herror, handleMessageReply_error herror]
    · refine htype.imp (fun hresponse => ⟨hresponse, hok⟩) fun herror => ⟨herror, ?_⟩
      rw [hok]
      decide
  · have hfailed : replyStatus reply.returnCode ≠ .success := fun h => hok (replyStatus_eq_success.1 h)
    rw [handleMessageReply_failed hfailed]
    cases htype with
    | inl hresponse =>
      refine iff_of_false (fun htake => ?_) ?_
      · obtain ⟨hnot, hremote⟩ := takeReply_status hresponse htake
        by_cases hreach : reply.returnCode = .notReachable
        · rw [hreach] at hnot
          exact hnot rfl
        · exact hremote (replyStatus_eq_remoteError.2 ⟨hok, hreach⟩)
      · rw [hresponse]
        simp [hok]
    | inr herror =>
      rw [takeReply_error herror, herror]
      by_cases hreach : reply.returnCode = .notReachable
      · rw [hreach]
        simp [replyStatus]
      · rw [replyStatus_eq_remoteError.2 ⟨hok, hreach⟩]
        simp [hreach]

/-- A synchronous call whose message is handed to the connection ends as the asynchronous one would,
    for the same reply, exactly under this condition. -/
theorem calls_agree_iff {methodCall : VsomeipMessage} {inArgs : List (Write Unit)} {handed : Handed}
    {connection : VsomeipMessage → Option VsomeipMessage}
    (hsent : writeArguments isLittleEndian inArgs methodCall = .ok (some handed))
    (hreply : connection handed.message = some reply)
    (htype : reply.messageType = .response ∨ reply.messageType = .error) :
    (fun called => (called.callStatus, called.outArgs)) <$>
          callMethodWithReply true methodCall isLittleEndian inArgs connection outArgs values =
        handleProxyReceive isLittleEndian outArgs values reply ↔
      (reply.messageType = .response ∧ reply.returnCode = .ok) ∨
        (reply.messageType = .error ∧ reply.returnCode ≠ .notReachable) := by
  rw [← takeReply_eq_iff htype]
  have hcall : (fun called => (called.callStatus, called.outArgs)) <$>
      callMethodWithReply true methodCall isLittleEndian inArgs connection outArgs values =
        takeReply isLittleEndian outArgs values (some reply) := by
    unfold callMethodWithReply
    rw [if_pos rfl, hsent]
    change _ <$> (takeReply isLittleEndian outArgs values (connection handed.message) >>= _) = _
    rw [hreply]
    cases takeReply isLittleEndian outArgs values (some reply) <;> rfl
  rw [hcall]

end Replies

def calledMethod : VsomeipMessage := .createMethodCall ⟨0x1234, 1, 1, 0⟩ 0x21

def byteResponse : VsomeipMessage :=
  { calledMethod.createResponseMessage with payload := ⟨[7], by decide⟩ }

theorem byte_response_taken_alike :
    (fun called => (called.callStatus, called.outArgs)) <$>
        callMethodWithReply true calledMethod true [] (fun _ => some byteResponse)
          (.cons (fun _ => InputStream.readUInt8 none) .nil) (0, ()) =
      handleProxyReceive true (.cons (fun _ => InputStream.readUInt8 none) .nil) (0, ()) byteResponse :=
  (@calls_agree_iff _ true _ _ byteResponse calledMethod [] ⟨calledMethod, none⟩ _ rfl rfl
    (Or.inl rfl)).2 (Or.inl ⟨rfl, rfl⟩)

def failedResponse : VsomeipMessage :=
  { calledMethod.createResponseMessage with returnCode := .other 0x01 (by decide) }

theorem failed_response_succeeds :
    ¬ ∀ reply : VsomeipMessage, reply.messageType = .response ∨ reply.messageType = .error →
      (fun called => (called.callStatus, called.outArgs)) <$>
          callMethodWithReply true calledMethod true [] (fun _ => some reply) .nil () =
        handleProxyReceive true .nil () reply := by
  intro h
  have hsame : (Except.ok (.success, ()) : Except Halt (CallStatus × Unit)) = .ok (.remoteError, ()) :=
    h failedResponse (Or.inl rfl)
  cases hsame

end SomeIPRuntime.MethodCalls
