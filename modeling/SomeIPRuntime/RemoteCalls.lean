import Mathlib.Data.BitVec
import SomeIPRuntime.ArgumentRoundTrip
import SomeIPRuntime.MethodCalls
import SomeIPRuntime.StubDispatchers

set_option autoImplicit false

namespace SomeIPRuntime.RemoteCalls
open Bits ProgramRuns
open InputStream (Read)
open OutputStream (Write)
open Deployment Serialization MethodCalls StubDispatchers TypedValues

section Arguments
variable (parts : (type : DataType) → type.Value → (part : DataType) → part.Value)
  (uninitialised : ℕ × ℕ) (fuel : ℕ)

def inArgs : (types : DataTypes) → types.Values → List (Read Unit)
  | .nil, _ => []
  | .cons first rest, (former, formers) =>
    ((fun _ => ()) <$> first.read (parts first former) uninitialised fuel) :: inArgs rest formers

variable {parts uninitialised fuel}

theorem deserialize_run {α : Type} (argument : Read α) (rest : List (Read α)) (s : InputStream) :
    InputStream.deserialize (argument :: rest) s =
      match argument s with
      | .ok value t =>
        if t.errorOccurred then .ok (false, [value]) t
        else match InputStream.deserialize rest t with
          | .ok result u => .ok (result.1, value :: result.2) u
          | .error halt u => .error halt u
      | .error halt t => .error halt t := by
  change (argument >>= _) s = _
  rw [bind_run]
  cases argument s with
  | error halt t => rfl
  | ok value t =>
    change (if t.errorOccurred = true then _ else _ : Read (Bool × List α)) t = _
    dsimp only
    split
    · rfl
    · rw [bind_run]
      cases InputStream.deserialize rest t <;> rfl

theorem outArgs_run {α β : Type} (argument : α → Read α) (rest : OutArgs β) (former : α) (formers : β)
    (s : InputStream) :
    (OutArgs.cons argument rest).deserialize (former, formers) s =
      match argument former s with
      | .ok value t =>
        if t.errorOccurred then .ok (false, value, formers) t
        else match rest.deserialize formers t with
          | .ok result u => .ok (result.1, value, result.2) u
          | .error halt u => .error halt u
      | .error halt t => .error halt t := by
  change (argument former >>= _) s = _
  rw [bind_run]
  cases argument former s with
  | error halt t => rfl
  | ok value t =>
    change (if t.errorOccurred = true then _ else _ : Read (Bool × α × β)) t = _
    dsimp only
    split
    · rfl
    · rw [bind_run]
      cases rest.deserialize formers t <;> rfl

inductive SameSuccess {ε σ α β : Type} : EStateM.Result ε σ (Bool × α) → EStateM.Result ε σ (Bool × β) → Prop
  | ok (success : Bool) (a : α) (b : β) (t : σ) : SameSuccess (.ok (success, a) t) (.ok (success, b) t)
  | error (e : ε) (t : σ) : SameSuccess (.error e t) (.error e t)

theorem deserialize_inArgs (types : DataTypes) (formers : types.Values) (s : InputStream) :
    SameSuccess (InputStream.deserialize (inArgs parts uninitialised fuel types formers) s)
      ((types.outArgs parts uninitialised fuel).deserialize formers s) := by
  cases types with
  | nil => exact .ok true [] () s
  | cons first rest =>
    rcases formers with ⟨former, formers⟩
    have hrest := deserialize_inArgs rest formers
    have hleft := deserialize_run ((fun _ => ()) <$> first.read (parts first former) uninitialised fuel)
      (inArgs parts uninitialised fuel rest formers) s
    have hright := outArgs_run (fun value => first.read (parts first value) uninitialised fuel)
      (rest.outArgs parts uninitialised fuel) former formers s
    rw [show InputStream.deserialize (inArgs parts uninitialised fuel (.cons first rest) (former, formers)) s = _
        from hleft,
      show ((DataTypes.cons first rest).outArgs parts uninitialised fuel).deserialize (former, formers) s = _
        from hright, map_run]
    cases first.read (parts first former) uninitialised fuel s with
    | error e t => exact .error e t
    | ok value t =>
      have hagree := hrest t
      dsimp only
      by_cases herror : t.errorOccurred = true
      · rw [if_pos herror, if_pos herror]
        exact .ok false [()] (value, formers) t
      · rw [if_neg herror, if_neg herror]
        generalize InputStream.deserialize (inArgs parts uninitialised fuel rest formers) t = units at hagree ⊢
        generalize (rest.outArgs parts uninitialised fuel).deserialize formers t = values at hagree ⊢
        cases hagree with
        | ok success a b u => exact .ok success (() :: a) (value, b) u
        | error e u => exact .error e u

def outcome {σ α : Type} : EStateM.Result Halt σ α → Except Halt α
  | .ok a _ => .ok a
  | .error halt _ => .error halt

theorem SameSuccess.outcome {σ α β : Type} {x : EStateM.Result Halt σ (Bool × α)}
    {y : EStateM.Result Halt σ (Bool × β)} (h : SameSuccess x y) :
    Prod.fst <$> RemoteCalls.outcome x = Prod.fst <$> RemoteCalls.outcome y := by
  cases h <;> rfl

theorem readArguments_outcome {α : Type} (isLittleEndian : Bool) (arguments : OutArgs α) (values : α)
    (message : VsomeipMessage) :
    readArguments isLittleEndian arguments values message =
      outcome (arguments.deserialize values (InputStream.create message.payload isLittleEndian)) := by
  unfold readArguments
  cases arguments.deserialize values (InputStream.create message.payload isLittleEndian) <;> rfl

theorem readsArguments_outcome (isLittleEndian : Bool) {arguments : List (Read Unit)}
    (h : arguments.isEmpty = false) (message : VsomeipMessage) :
    readsArguments isLittleEndian arguments message =
      Prod.fst <$> outcome (InputStream.deserialize arguments (InputStream.create message.payload isLittleEndian)) := by
  unfold readsArguments
  rw [h, if_neg Bool.false_ne_true]
  cases InputStream.deserialize arguments (InputStream.create message.payload isLittleEndian) <;> rfl

theorem readsArguments_inArgs (isLittleEndian : Bool) (types : DataTypes) (formers : types.Values)
    (message : VsomeipMessage) :
    readsArguments isLittleEndian (inArgs parts uninitialised fuel types formers) message =
      Prod.fst <$> readArguments isLittleEndian (types.outArgs parts uninitialised fuel) formers message := by
  cases types with
  | nil => rfl
  | cons first rest =>
    have hne : (inArgs parts uninitialised fuel (.cons first rest) formers).isEmpty = false := by
      rcases formers with ⟨former, formers⟩
      rfl
    rw [readsArguments_outcome isLittleEndian hne, readArguments_outcome]
    exact (deserialize_inArgs _ _ _).outcome

end Arguments

/-- A method of an interface with its stub function. -/
structure RemoteMethod where
  inTypes : DataTypes
  outTypes : DataTypes
  isImplemented : Bool
  isLittleEndian : Bool
  stubFunctor : ClientId → inTypes.Values → outTypes.Values

section Service
variable (parts : (type : DataType) → type.Value → (part : DataType) → part.Value)
  (uninitialised : ℕ × ℕ) (fuel : ℕ) (method : RemoteMethod)

def RemoteMethod.readsFrom (message : VsomeipMessage) : Except Halt (Bool × method.inTypes.Values) :=
  readArguments method.isLittleEndian (method.inTypes.outArgs parts uninitialised fuel) method.inTypes.initials
    message

def RemoteMethod.dispatcher : Dispatcher :=
  .adapterMethod method.isImplemented method.isLittleEndian
    (inArgs parts uninitialised fuel method.inTypes method.inTypes.initials)

def RemoteMethod.answer (message : VsomeipMessage) : StubAnswer :=
  match method.readsFrom parts uninitialised fuel message with
  | .ok arguments => ⟨method.outTypes.arguments (method.stubFunctor message.client arguments.2), pure ()⟩
  | .error _ => ⟨[], pure ()⟩

/-- The dispatcher that the adapter finds for the method. -/
def Serves (dispatcher : Dispatcher) (method : MethodId) : List Helper → Prop
  | [] => False
  | helper :: rest =>
    (helper.hasStub = true ∧ helper.stubDispatcherTable method = some dispatcher) ∨
      ((helper.hasStub = false ∨ helper.stubDispatcherTable method = none) ∧ Serves dispatcher method rest)

def stamped (client : ClientId) (session : SessionId) (message : VsomeipMessage) : VsomeipMessage :=
  { message with client := client, session := session }

def exchange (helpers : List Helper) (client : ClientId) (session : SessionId) (request : VsomeipMessage) :
    Option VsomeipMessage :=
  match findDispatcherAndHandle (method.answer parts uninitialised fuel (stamped client session request)) true true
      (stamped client session request) helpers with
  | .ok handling => handling.sent.head?
  | .error _ => none

variable {parts uninitialised fuel method} {helpers : List Helper} {client : ClientId} {session : SessionId}
  {address : Address} {id : MethodId}

/-- A message for a method that is served goes to its dispatcher, and an error message follows if it
    has not been handled. -/
theorem served {dispatcher : Dispatcher} {message : VsomeipMessage} {answer : StubAnswer}
    (h : Serves dispatcher message.method helpers) {dispatched : Dispatched}
    (hrun : dispatcher.dispatchMessage answer true message = .ok dispatched) :
    findDispatcherAndHandle answer true true message helpers =
      .ok ⟨sentBy true dispatched.handed ++
        (if !dispatched.isHandled && message.isRequestType then
          sentBy true (some (errorMessage message .malformedMessage)) else []),
        dispatcher.waits dispatched⟩ := by
  induction helpers with
  | nil => exact h.elim
  | cons helper rest ih =>
    unfold findDispatcherAndHandle
    rcases h with ⟨hstub, htable⟩ | ⟨hskip, hrest⟩
    · rw [htable, hstub]
      dsimp only
      rw [hrun]
      change (if _ then _ else _ : Except Halt Handling) = _
      split
      · rfl
      · rw [List.append_nil]
        rfl
    · have hnext := ih hrest
      rcases hskip with hstub | htable
      · rw [hstub]
        split
        · rename_i hfalse
          cases hfalse
        · exact hnext
      · rw [htable]
        split
        · rename_i hfalse _
          cases hfalse
        · exact hnext

theorem stamped_request (message : VsomeipMessage) (h : message.messageType = .request) :
    (stamped client session message).isRequestType = true :=
  decide_eq_true h

/-- The dispatcher of a call whose arguments have been read. -/
theorem dispatcher_replies {message : VsomeipMessage} {arguments : method.inTypes.Values} {reply : Handed}
    (himplemented : method.isImplemented = true) (hrequest : message.isRequestType = true)
    (hread : method.readsFrom parts uninitialised fuel message = .ok (true, arguments))
    (hreply : writeArguments method.isLittleEndian
      (method.outTypes.arguments (method.stubFunctor message.client arguments)) message.createResponseMessage =
        .ok (some reply)) :
    (method.dispatcher parts uninitialised fuel).dispatchMessage (method.answer parts uninitialised fuel message)
      true message = .ok ⟨some reply, true, false⟩ := by
  have hanswer : method.answer parts uninitialised fuel message =
      ⟨method.outTypes.arguments (method.stubFunctor message.client arguments), pure ()⟩ := by
    unfold RemoteMethod.answer
    rw [hread]
  have hreads : readsArguments method.isLittleEndian
      (inArgs parts uninitialised fuel method.inTypes method.inTypes.initials) message = .ok true := by
    rw [readsArguments_inArgs]
    change Prod.fst <$> method.readsFrom parts uninitialised fuel message = _
    rw [hread]
    rfl
  rw [hanswer]
  change MethodWithReplyAdapterDispatcher.dispatchMessage method.isImplemented method.isLittleEndian _ _ true
    message = _
  unfold MethodWithReplyAdapterDispatcher.dispatchMessage
  rw [himplemented, hrequest, hreads]
  change (writeArguments _ _ _ >>= _) = _
  rw [hreply]
  rfl

def Unknown (method : MethodId) (helpers : List Helper) : Prop :=
  ∀ helper ∈ helpers, helper.hasStub = false ∨ helper.stubDispatcherTable method = none

theorem unknown_answered {message : VsomeipMessage} {answer : StubAnswer} (h : Unknown message.method helpers) :
    findDispatcherAndHandle answer true true message helpers =
      .ok ⟨sentBy true (some (errorMessage message .unknownMethod)), none⟩ := by
  induction helpers with
  | nil => rfl
  | cons helper rest ih =>
    have hnext := ih fun other hother => h other (List.mem_cons_of_mem helper hother)
    unfold findDispatcherAndHandle
    rcases h helper List.mem_cons_self with hstub | htable
    · rw [hstub]
      split
      · rename_i hfalse
        cases hfalse
      · exact hnext
    · rw [htable]
      split
      · rename_i hfalse _
        cases hfalse
      · exact hnext

/-- The dispatcher leaves the request: the method is not implemented, the arguments cannot be read,
    or the results cannot be written. -/
inductive Leaves (method : RemoteMethod) (message : VsomeipMessage) : Prop
  | unimplemented (h : method.isImplemented = false)
  | unread (formers : method.inTypes.Values)
      (h : method.readsFrom parts uninitialised fuel message = .ok (false, formers))
  | unwritten (arguments : method.inTypes.Values)
      (hread : method.readsFrom parts uninitialised fuel message = .ok (true, arguments))
      (h : writeArguments method.isLittleEndian
        (method.outTypes.arguments (method.stubFunctor message.client arguments)) message.createResponseMessage =
          .ok none)

theorem leaves_unhandled {message : VsomeipMessage} (hrequest : message.isRequestType = true)
    (h : @Leaves parts uninitialised fuel method message) :
    (method.dispatcher parts uninitialised fuel).dispatchMessage (method.answer parts uninitialised fuel message)
      true message = .ok ⟨none, false, false⟩ := by
  change MethodWithReplyAdapterDispatcher.dispatchMessage method.isImplemented method.isLittleEndian _ _ true
    message = _
  have hreads : ∀ success arguments, method.readsFrom parts uninitialised fuel message = .ok (success, arguments) →
      readsArguments method.isLittleEndian
        (inArgs parts uninitialised fuel method.inTypes method.inTypes.initials) message = .ok success := by
    intro success arguments hread
    rw [readsArguments_inArgs]
    change Prod.fst <$> method.readsFrom parts uninitialised fuel message = _
    rw [hread]
    rfl
  unfold MethodWithReplyAdapterDispatcher.dispatchMessage
  cases himplemented : method.isImplemented with
  | false => rfl
  | true =>
    rw [hrequest]
    cases h with
    | unimplemented h => cases himplemented.symm.trans h
    | unread formers h =>
      rw [hreads false formers h]
      rfl
    | unwritten arguments hread h =>
      rw [hreads true arguments hread]
      unfold RemoteMethod.answer
      rw [hread]
      change (writeArguments _ _ _ >>= _) = _
      rw [h]
      rfl

theorem reply_taken {α : Type} {isLittleEndian : Bool} {methodCall reply : VsomeipMessage}
    {inArgs : List (Write Unit)} {connection : VsomeipMessage → Option VsomeipMessage} {outArgs : OutArgs α}
    {formers values : α} {call : Handed} (hcall : writeArguments isLittleEndian inArgs methodCall = .ok (some call))
    (hreply : connection call.message = some reply) (hresponse : reply.messageType = .response)
    (hvalid : reply.isValidCrc = true)
    (hread : readArguments isLittleEndian outArgs formers reply = .ok (true, values)) :
    callMethodWithReply true methodCall isLittleEndian inArgs connection outArgs formers =
      .ok ⟨some call, .success, values⟩ := by
  unfold callMethodWithReply
  rw [if_pos rfl, hcall]
  change (takeReply isLittleEndian outArgs formers (connection call.message) >>= _) = _
  rw [hreply, takeReply_response hresponse]
  unfold handleMessageReply VsomeipMessage.isErrorType
  rw [if_pos rfl, hresponse, hvalid, hread]
  rfl

theorem response_sent {reply : Handed} (h : reply.message.messageType = .response) :
    sentBy true (some reply) = [reply.message] := by
  change [reply.message.withoutReply] = _
  unfold VsomeipMessage.withoutReply VsomeipMessage.isRequestType
  rw [h]
  rfl

/-- A remote call gives what the stub function gives for the arguments of the caller, if these and
    the results come back from where they are written. -/
theorem remote_call_returns {arguments : method.inTypes.Values} {formers : method.outTypes.Values}
    {call reply : Handed} (hserves : Serves (method.dispatcher parts uninitialised fuel) id helpers)
    (himplemented : method.isImplemented = true)
    (hin : method.inTypes.SendableFields method.isLittleEndian arguments 0)
    (hinFuel : method.inTypes.longestField arguments ≤ fuel)
    (hout : method.outTypes.SendableFields method.isLittleEndian (method.stubFunctor client arguments) 0)
    (houtFuel : method.outTypes.longestField (method.stubFunctor client arguments) ≤ fuel)
    (hcall : writeArguments method.isLittleEndian (method.inTypes.arguments arguments)
      (.createMethodCall address id) = .ok (some call)) (hcallShort : Short call)
    (hreply : writeArguments method.isLittleEndian
      (method.outTypes.arguments (method.stubFunctor client arguments))
      (stamped client session call.message).createResponseMessage = .ok (some reply))
    (hreplyShort : Short reply) :
    callMethodWithReply true (.createMethodCall address id) method.isLittleEndian
      (method.inTypes.arguments arguments) (exchange parts uninitialised fuel method helpers client session)
      (method.outTypes.outArgs parts uninitialised fuel) formers =
        .ok ⟨some call, .success, method.stubFunctor client arguments⟩ := by
  have hcallHeader := writeArguments_header hcall
  have hreplyHeader := writeArguments_header hreply
  have hrequest : call.message.messageType = .request := by
    rw [hcallHeader]
    rfl
  have hserved : Serves (method.dispatcher parts uninitialised fuel)
      (stamped client session call.message).method helpers := by
    rw [hcallHeader]
    exact hserves
  have hresponse : reply.message.messageType = .response := by
    rw [hreplyHeader]
    rfl
  have hvalid : reply.message.isValidCrc = true := by
    rw [hreplyHeader]
    rfl
  have hread : method.readsFrom parts uninitialised fuel (stamped client session call.message) =
      .ok (true, arguments) :=
    method.inTypes.arguments_arrive arguments method.inTypes.initials hin hinFuel hcall hcallShort rfl
  have hback : readArguments method.isLittleEndian (method.outTypes.outArgs parts uninitialised fuel) formers
      reply.message = .ok (true, method.stubFunctor client arguments) :=
    method.outTypes.arguments_arrive _ formers hout houtFuel hreply hreplyShort rfl
  have hdispatched := dispatcher_replies himplemented (stamped_request _ hrequest) hread hreply
  have hexchange : exchange parts uninitialised fuel method helpers client session call.message =
      some reply.message := by
    unfold exchange
    rw [served hserved hdispatched, response_sent hresponse]
    rfl
  exact reply_taken hcall hexchange hresponse hvalid hback

/-- Where the service cannot answer a call, the caller learns it and keeps its results. -/
theorem remote_call_fails {arguments : method.inTypes.Values} {formers : method.outTypes.Values} {call : Handed}
    (hcall : writeArguments method.isLittleEndian (method.inTypes.arguments arguments)
      (.createMethodCall address id) = .ok (some call))
    (h : Unknown id helpers ∨ (Serves (method.dispatcher parts uninitialised fuel) id helpers ∧
      @Leaves parts uninitialised fuel method (stamped client session call.message))) :
    callMethodWithReply true (.createMethodCall address id) method.isLittleEndian
      (method.inTypes.arguments arguments) (exchange parts uninitialised fuel method helpers client session)
      (method.outTypes.outArgs parts uninitialised fuel) formers = .ok ⟨some call, .remoteError, formers⟩ := by
  have hheader := writeArguments_header hcall
  have hid : (stamped client session call.message).method = id := by
    rw [hheader]
    rfl
  have hrequest : (stamped client session call.message).isRequestType = true := by
    apply stamped_request
    rw [hheader]
    rfl
  have hexchange : ∃ returnCode, exchange parts uninitialised fuel method helpers client session call.message =
      some ((stamped client session call.message).createErrorResponseMessage returnCode) := by
    unfold exchange
    rcases h with hunknown | ⟨hserves, hleaves⟩
    · rw [unknown_answered (hid.symm ▸ hunknown)]
      exact ⟨.unknownMethod, rfl⟩
    · rw [served (hid.symm ▸ hserves) (leaves_unhandled hrequest hleaves), hrequest]
      exact ⟨.malformedMessage, rfl⟩
  rcases hexchange with ⟨returnCode, hexchange⟩
  unfold callMethodWithReply
  rw [if_pos rfl, hcall]
  change (takeReply method.isLittleEndian _ formers (exchange parts uninitialised fuel method helpers client
    session call.message) >>= _) = _
  rw [hexchange, takeReply_error rfl]
  rfl

end Service

def sum : RemoteMethod where
  inTypes := .cons (.integer uint8 none) (.cons (.byteVector none) .nil)
  outTypes := .cons (.integer uint8 none) .nil
  isImplemented := true
  isLittleEndian := false
  stubFunctor _ arguments :=
    let (first, rest, _) := (show BitVec 8 × List Byte × Unit from arguments)
    (show BitVec 8 × Unit from (first + rest.sum, ()))

def sumArguments : sum.inTypes.Values := show BitVec 8 × List Byte × Unit from (1, [2, 3], ())

def initialParts (type : DataType) (_ : type.Value) : (part : DataType) → part.Value := DataType.initial

def sumHelpers : List Helper :=
  [⟨true, fun _ => none⟩, ⟨true, fun id => if id = 0x21 then some (sum.dispatcher initialParts (0, 0) 0) else none⟩]

theorem sum_returns :
    ∃ call, callMethodWithReply true (.createMethodCall ⟨0x1234, 1, 1, 0⟩ 0x21) false
        (sum.inTypes.arguments sumArguments) (exchange initialParts (0, 0) 0 sum sumHelpers 7 3)
        (sum.outTypes.outArgs initialParts (0, 0) 0) sum.outTypes.initials =
      .ok ⟨some call, .success, sum.stubFunctor 7 sumArguments⟩ := by
  have hcall := @written_shortly (writeArguments false (sum.inTypes.arguments sumArguments)
    (.createMethodCall ⟨0x1234, 1, 1, 0⟩ 0x21)) (by decide +kernel)
  rcases hcall with ⟨call, hcall, hcallShort⟩
  have hreply := @written_shortly (writeArguments false
    (sum.outTypes.arguments (sum.stubFunctor 7 sumArguments))
    (stamped 7 3 (.createMethodCall ⟨0x1234, 1, 1, 0⟩ 0x21)).createResponseMessage) (by decide +kernel)
  rcases hreply with ⟨reply, hreply, hreplyShort⟩
  have hheader : (stamped 7 3 call.message).createResponseMessage =
      (stamped 7 3 (.createMethodCall ⟨0x1234, 1, 1, 0⟩ 0x21)).createResponseMessage := by
    rw [writeArguments_header hcall]
    rfl
  exact ⟨call, @remote_call_returns initialParts (0, 0) 0 sum sumHelpers 7 3 ⟨0x1234, 1, 1, 0⟩ 0x21 sumArguments
    sum.outTypes.initials call reply (Or.inr ⟨Or.inr rfl, Or.inl ⟨rfl, rfl⟩⟩) rfl
    ⟨byte_survives 1, Or.inr (by decide), trivial⟩ (by decide) ⟨byte_survives 6, trivial⟩ (by decide) hcall
    hcallShort (hheader ▸ hreply) hreplyShort⟩

/-- The method is not in the tables of a service that has only another method. -/
theorem sum_fails :
    ∃ call, callMethodWithReply true (.createMethodCall ⟨0x1234, 1, 1, 0⟩ 0x22) false
        (sum.inTypes.arguments sumArguments) (exchange initialParts (0, 0) 0 sum sumHelpers 7 3)
        (sum.outTypes.outArgs initialParts (0, 0) 0) sum.outTypes.initials =
      .ok ⟨some call, .remoteError, sum.outTypes.initials⟩ := by
  have hcall := @written_shortly (writeArguments false (sum.inTypes.arguments sumArguments)
    (.createMethodCall ⟨0x1234, 1, 1, 0⟩ 0x22)) (by decide +kernel)
  rcases hcall with ⟨call, hcall, _⟩
  refine ⟨call, remote_call_fails hcall (Or.inl fun helper hhelper => Or.inr ?_)⟩
  rcases List.mem_cons.1 hhelper with rfl | hhelper
  · rfl
  · rw [List.mem_singleton.1 hhelper]
    rfl

end SomeIPRuntime.RemoteCalls
