import SomeIPRuntime.Address
import SomeIPRuntime.Message

set_option autoImplicit false

namespace SomeIPRuntime

abbrev ClientId := BitVec 16

/-- `MT_REQUEST`, `MT_REQUEST_NO_RETURN`, `MT_NOTIFICATION`, `MT_RESPONSE` and `MT_ERROR`. -/
inductive MessageType
  | request
  | requestNoReturn
  | notification
  | response
  | error
  deriving DecidableEq, Repr

inductive ReturnCode
  | ok
  | unknownMethod
  | notReachable
  | timeout
  | malformedMessage
  | wrongMessageType
  | other (code : BitVec 8) (unnamed : code ∉ [0x00, 0x03, 0x05, 0x06, 0x09, 0x0A])
  deriving DecidableEq, Repr

structure VsomeipMessage where
  service : ServiceId
  instance_ : InstanceId
  method : MethodId
  interfaceVersion : MajorVersion
  client : ClientId
  session : SessionId
  messageType : MessageType
  returnCode : ReturnCode
  isValidCrc : Bool
  payload : Message

namespace VsomeipMessage

def noPayload : Message := ⟨[], Nat.two_pow_pos 32⟩

def createMethodCall (address : Address) (method : MethodId) : VsomeipMessage where
  service := address.service
  instance_ := address.instance_
  method := method
  interfaceVersion := address.majorVersion
  client := 0
  session := 0
  messageType := .request
  returnCode := .ok
  isValidCrc := true
  payload := noPayload

def createNotificationMessage (address : Address) (event : EventId) : VsomeipMessage :=
  { createMethodCall address event with messageType := .notification }

def createResponseMessage (message : VsomeipMessage) : VsomeipMessage :=
  { message with messageType := .response, returnCode := .ok, isValidCrc := true, payload := noPayload }

def createErrorResponseMessage (message : VsomeipMessage) (returnCode : ReturnCode) : VsomeipMessage :=
  { message.createResponseMessage with messageType := .error, returnCode := returnCode }

def isResponseType (message : VsomeipMessage) : Bool := message.messageType = .response

def isErrorType (message : VsomeipMessage) : Bool := message.messageType = .error

def isRequestType (message : VsomeipMessage) : Bool := message.messageType = .request

/-- `Connection::sendMessage` sends a request as one that wants no reply. -/
def withoutReply (message : VsomeipMessage) : VsomeipMessage :=
  if message.isRequestType then { message with messageType := .requestNoReturn } else message

end VsomeipMessage

end SomeIPRuntime
