import SomeIPRuntime.RemoteCalls

set_option autoImplicit false

namespace SomeIPRuntime.RemoteAttributes
open Bits Deployment ProgramRuns
open InputStream (Read)
open OutputStream (Write)
open Serialization MethodCalls StubDispatchers TypedValues RemoteCalls

/-- An attribute with the functions of its stub: `onRemoteSet` changes the state of the stub and says
    whether the value has changed. -/
structure Attribute (σ : Type) where
  type : DataType
  isLittleEndian : Bool
  isImplemented : Bool
  isObservable : Bool
  getMethodId : MethodId
  setMethodId : MethodId
  get : ClientId → σ → type.Value
  onRemoteSet : ClientId → type.Value → σ → σ × Bool

section Dispatchers
variable {σ : Type} (parts : (type : DataType) → type.Value → (part : DataType) → part.Value)
  (uninitialised : ℕ × ℕ) (fuel : ℕ) (field : Attribute σ)

def Attribute.arguments : DataTypes := .cons field.type .nil

def Attribute.itsValue (message : VsomeipMessage) : Except Halt (Bool × field.arguments.Values) :=
  readArguments field.isLittleEndian (field.arguments.outArgs parts uninitialised fuel)
    field.arguments.initials message

/-- What a dispatcher has done: to the message, to the stub, and the values of the events that it has
    fired. `remoteChanged` holds if `onRemoteChanged` was called. -/
structure Handled (σ α : Type) where
  dispatched : Dispatched
  stub : σ
  fired : List α
  remoteChanged : Bool

def Attribute.sendAttributeValueReply (isConnected : Bool) (message : VsomeipMessage) (stub : σ) :
    Except Halt Dispatched :=
  GetAttributeStubDispatcher.sendAttributeValueReply field.isLittleEndian
    (field.type.write (field.get message.client stub)) isConnected message

/-- `GetAttributeStubDispatcher::dispatchMessage` -/
def Attribute.dispatchGet (isConnected : Bool) (message : VsomeipMessage) (stub : σ) :
    Except Halt (Handled σ field.type.Value) :=
  if !field.isImplemented then .ok ⟨⟨none, false, false⟩, stub, [], false⟩
  else do
    let dispatched ← field.sendAttributeValueReply isConnected message stub
    pure ⟨dispatched, stub, [], false⟩

/-- The result is what has become of the message, the stub, and `_hasChanged`. -/
def Attribute.setAttributeValue (isConnected : Bool) (message : VsomeipMessage) (stub : σ) :
    Except Halt (Dispatched × σ × Bool) := do
  let itsValue ← field.itsValue parts uninitialised fuel message
  if itsValue.1 then
    let (stub, hasChanged) := field.onRemoteSet message.client itsValue.2.1 stub
    let dispatched ← field.sendAttributeValueReply isConnected message stub
    pure (dispatched, stub, hasChanged)
  else pure (⟨none, false, false⟩, stub, false)

/-- `SetAttributeStubDispatcher::dispatchMessage`, or that of `SetObservableAttributeStubDispatcher`. -/
def Attribute.dispatchSet (isConnected : Bool) (message : VsomeipMessage) (stub : σ) :
    Except Halt (Handled σ field.type.Value) :=
  if !field.isImplemented then .ok ⟨⟨none, false, false⟩, stub, [], false⟩
  else do
    let (dispatched, stub, hasChanged) ←
      field.setAttributeValue parts uninitialised fuel isConnected message stub
    if dispatched.isHandled && hasChanged then
      pure ⟨dispatched, stub, if field.isObservable then [field.get message.client stub] else [], true⟩
    else pure ⟨dispatched, stub, [], false⟩

def Attribute.getDispatcher : Dispatcher := .getAttribute field.isImplemented field.isLittleEndian

def Attribute.setDispatcher : Dispatcher :=
  if field.isObservable then
    .setObservableAttribute field.isImplemented field.isLittleEndian
      ((fun _ => ()) <$> field.type.read (parts field.type field.type.initial) uninitialised fuel)
  else
    .setAttribute field.isImplemented field.isLittleEndian
      ((fun _ => ()) <$> field.type.read (parts field.type field.type.initial) uninitialised fuel)

/-- The adapter has the dispatchers of the attribute in its tables. -/
structure Adapter (helpers : List Helper) : Prop where
  get : Serves field.getDispatcher field.getMethodId helpers
  set : Serves (field.setDispatcher parts uninitialised fuel) field.setMethodId helpers
  distinct : field.getMethodId ≠ field.setMethodId

def Attribute.handle (message : VsomeipMessage) (stub : σ) : Except Halt (Handled σ field.type.Value) :=
  if message.method = field.setMethodId then
    field.dispatchSet parts uninitialised fuel true message stub
  else field.dispatchGet true message stub

def Attribute.answer (message : VsomeipMessage) (stub : σ) : StubAnswer :=
  match field.handle parts uninitialised fuel message stub with
  | .ok handled => ⟨[], field.type.write (field.get message.client handled.stub)⟩
  | .error _ => ⟨[], pure ()⟩

def Attribute.serve (helpers : List Helper) (client : ClientId) (session : SessionId) (stub : σ)
    (request : VsomeipMessage) : Option VsomeipMessage × σ × List field.type.Value :=
  let message := stamped client session request
  match findDispatcherAndHandle (field.answer parts uninitialised fuel message stub) true true message helpers,
    field.handle parts uninitialised fuel message stub with
  | .ok handling, .ok handled => (handling.sent.head?, handled.stub, handled.fired)
  | _, _ => (none, stub, [])

/-- What a client does. vsomeip gives the call the session. -/
inductive Operation (α : Type)
  | getValue (client : ClientId) (session : SessionId)
  | setValue (client : ClientId) (session : SessionId) (request : α)

structure Outcome (σ α : Type) where
  callStatus : CallStatus
  value : α
  stub : σ
  fired : List α

def Attribute.call (address : Address) (helpers : List Helper) (client : ClientId) (session : SessionId)
    (method : MethodId) (inArgs : List (Write Unit)) (stub : σ) :
    Except Halt (Outcome σ field.type.Value) := do
  let serve := field.serve parts uninitialised fuel helpers client session stub
  let called ← callMethodWithReply true (.createMethodCall address method) field.isLittleEndian inArgs
    (fun request => (serve request).1) (field.arguments.outArgs parts uninitialised fuel) field.arguments.initials
  match called.handed with
  | some handed =>
    pure ⟨called.callStatus, called.outArgs.1, (serve handed.message).2.1, (serve handed.message).2.2⟩
  | none => pure ⟨called.callStatus, called.outArgs.1, stub, []⟩

def Attribute.perform (address : Address) (helpers : List Helper) (stub : σ) :
    Operation field.type.Value → Except Halt (Outcome σ field.type.Value)
  | .getValue client session =>
    if field.getMethodId ≠ 0 then
      field.call parts uninitialised fuel address helpers client session field.getMethodId [] stub
    else .ok ⟨.notAvailable, field.type.initial, stub, []⟩
  | .setValue client session request =>
    field.call parts uninitialised fuel address helpers client session field.setMethodId
      [field.type.write request] stub

def Attribute.performAll (address : Address) (helpers : List Helper) :
    List (Operation field.type.Value) → σ →
      Except Halt (List (CallStatus × field.type.Value) × σ × List field.type.Value)
  | [], stub => .ok ([], stub, [])
  | operation :: rest, stub => do
    let outcome ← field.perform parts uninitialised fuel address helpers stub operation
    let (results, last, fired) ← Attribute.performAll address helpers rest outcome.stub
    pure ((outcome.callStatus, outcome.value) :: results, last, outcome.fired ++ fired)

end Dispatchers

section Register
variable {σ : Type} (field : Attribute σ)

def Attribute.register : List (Operation field.type.Value) → σ →
    List field.type.Value × σ × List field.type.Value
  | [], stub => ([], stub, [])
  | .getValue client _ :: rest, stub =>
    let (values, last, fired) := Attribute.register rest stub
    (field.get client stub :: values, last, fired)
  | .setValue client _ request :: rest, stub =>
    let (next, hasChanged) := field.onRemoteSet client request stub
    let (values, last, fired) := Attribute.register rest next
    (field.get client next :: values, last,
      (if hasChanged && field.isObservable then [field.get client next] else []) ++ fired)

def Attribute.Transmits (fuel : ℕ) (value : field.type.Value) : Prop :=
  field.type.Sendable field.isLittleEndian value 0 ∧ field.type.longest value ≤ fuel ∧
    ∃ handed, writeArguments field.isLittleEndian [field.type.write value] (.createMethodCall ⟨0, 0, 0, 0⟩ 0) =
      .ok (some handed) ∧ Short handed

/-- All values that the operations send come back. -/
def Attribute.TransmitsAll (fuel : ℕ) : List (Operation field.type.Value) → σ → Prop
  | [], _ => True
  | .getValue client _ :: rest, stub =>
    field.Transmits fuel (field.get client stub) ∧ Attribute.TransmitsAll fuel rest stub
  | .setValue client _ request :: rest, stub =>
    field.Transmits fuel request ∧
      field.Transmits fuel (field.get client (field.onRemoteSet client request stub).1) ∧
        Attribute.TransmitsAll fuel rest (field.onRemoteSet client request stub).1

end Register

section Refinement
variable {σ : Type} {parts : (type : DataType) → type.Value → (part : DataType) → part.Value}
  {uninitialised : ℕ × ℕ} {fuel : ℕ} {field : Attribute σ} {message : VsomeipMessage} {stub : σ}
  {helpers : List Helper} {address : Address} {client : ClientId} {session : SessionId}

theorem readsArguments_itsValue :
    readsArguments field.isLittleEndian
        [(fun _ => ()) <$> field.type.read (parts field.type field.type.initial) uninitialised fuel] message =
      Prod.fst <$> field.itsValue parts uninitialised fuel message :=
  readsArguments_inArgs field.isLittleEndian field.arguments field.arguments.initials message

theorem written_anywhere {isLittleEndian : Bool} {arguments : List (Write Unit)} {one : VsomeipMessage}
    {handed : Handed} (h : writeArguments isLittleEndian arguments one = .ok (some handed))
    (hne : arguments.isEmpty = false) (hshort : Short handed) (other : VsomeipMessage) :
    ∃ handed', writeArguments isLittleEndian arguments other = .ok (some handed') ∧ Short handed' := by
  rcases writeArguments_handed h hne with ⟨t, hrun, hwritten, -⟩
  rcases flushInto_ok other t with ⟨handed', hflush⟩
  refine ⟨handed', ?_, ?_⟩
  · unfold writeArguments
    rw [hne, if_neg Bool.false_ne_true, hrun]
    dsimp only
    rw [hflush]
    rfl
  · unfold Short
    rw [flushInto_written hflush, ← hwritten]
    exact hshort

theorem Attribute.Transmits.written {value : field.type.Value} (h : field.Transmits fuel value)
    (message : VsomeipMessage) :
    ∃ handed, writeArguments field.isLittleEndian [field.type.write value] message = .ok (some handed) ∧
      Short handed := by
  rcases h.2.2 with ⟨handed, hwritten, hshort⟩
  exact written_anywhere hwritten rfl hshort message

theorem Attribute.Transmits.arrives {value : field.type.Value} (h : field.Transmits fuel value)
    {message received : VsomeipMessage} {handed : Handed}
    (hwritten : writeArguments field.isLittleEndian [field.type.write value] message = .ok (some handed))
    (hshort : Short handed) (hreceived : received.payload = handed.message.payload) :
    readArguments field.isLittleEndian (field.arguments.outArgs parts uninitialised fuel)
      field.arguments.initials received = .ok (true, value, ()) :=
  field.arguments.arguments_arrive (value, ()) field.arguments.initials ⟨h.1, trivial⟩
    (max_le h.2.1 (Nat.zero_le fuel)) hwritten hshort hreceived

/-- The dispatcher of a getter writes what `serialize` writes. -/
theorem sendAttributeValueReply_eq {value : field.type.Value} {reply : Handed}
    (hreply : writeArguments field.isLittleEndian [field.type.write value] message.createResponseMessage =
      .ok (some reply)) :
    GetAttributeStubDispatcher.sendAttributeValueReply field.isLittleEndian (field.type.write value) true message =
      .ok ⟨some reply, true, false⟩ := by
  rcases writeArguments_handed hreply rfl with ⟨t, hrun, hwritten, -⟩
  rcases serialize_cons hrun with ⟨m, hwrite, -, hrest⟩
  cases hrest
  unfold writeArguments at hreply
  rw [List.isEmpty_cons, if_neg Bool.false_ne_true, hrun] at hreply
  unfold GetAttributeStubDispatcher.sendAttributeValueReply
  rw [hwrite]
  dsimp only at hreply ⊢
  cases hflush : flushInto message.createResponseMessage t with
  | error halt =>
    rw [hflush] at hreply
    cases hreply
  | ok handed =>
    rw [hflush] at hreply
    cases hreply
    rfl

theorem dispatchGet_replies {reply : Handed} (himplemented : field.isImplemented = true)
    (hreply : writeArguments field.isLittleEndian [field.type.write (field.get message.client stub)]
      message.createResponseMessage = .ok (some reply)) :
    field.dispatchGet true message stub = .ok ⟨⟨some reply, true, false⟩, stub, [], false⟩ := by
  unfold Attribute.dispatchGet Attribute.sendAttributeValueReply
  rw [himplemented, sendAttributeValueReply_eq hreply]
  rfl

theorem dispatchSet_replies {request : field.type.Value} {reply : Handed}
    (himplemented : field.isImplemented = true)
    (hread : field.itsValue parts uninitialised fuel message = .ok (true, request, ()))
    (hreply : writeArguments field.isLittleEndian
      [field.type.write (field.get message.client (field.onRemoteSet message.client request stub).1)]
      message.createResponseMessage = .ok (some reply)) :
    field.dispatchSet parts uninitialised fuel true message stub =
      .ok ⟨⟨some reply, true, false⟩, (field.onRemoteSet message.client request stub).1,
        if (field.onRemoteSet message.client request stub).2 && field.isObservable then
          [field.get message.client (field.onRemoteSet message.client request stub).1] else [],
        (field.onRemoteSet message.client request stub).2⟩ := by
  have hset : field.setAttributeValue parts uninitialised fuel true message stub =
      .ok (⟨some reply, true, false⟩, field.onRemoteSet message.client request stub) := by
    unfold Attribute.setAttributeValue Attribute.sendAttributeValueReply
    rw [hread]
    change (GetAttributeStubDispatcher.sendAttributeValueReply _ _ _ _ >>= _) = _
    rw [sendAttributeValueReply_eq hreply]
    rfl
  unfold Attribute.dispatchSet
  rw [himplemented, hset]
  rcases field.onRemoteSet message.client request stub with ⟨next, hasChanged⟩
  cases hasChanged <;> cases field.isObservable <;> rfl

theorem getDispatcher_replies {answer : StubAnswer} {value : field.type.Value} {reply : Handed}
    (himplemented : field.isImplemented = true) (hanswer : answer.value = field.type.write value)
    (hreply : writeArguments field.isLittleEndian [field.type.write value] message.createResponseMessage =
      .ok (some reply)) :
    field.getDispatcher.dispatchMessage answer true message = .ok ⟨some reply, true, false⟩ := by
  change GetAttributeStubDispatcher.dispatchMessage field.isImplemented field.isLittleEndian answer.value true
    message = _
  unfold GetAttributeStubDispatcher.dispatchMessage
  rw [himplemented, hanswer]
  exact sendAttributeValueReply_eq hreply

theorem setDispatcher_replies {answer : StubAnswer} {request value : field.type.Value} {reply : Handed}
    (himplemented : field.isImplemented = true)
    (hread : field.itsValue parts uninitialised fuel message = .ok (true, request, ()))
    (hanswer : answer.value = field.type.write value)
    (hreply : writeArguments field.isLittleEndian [field.type.write value] message.createResponseMessage =
      .ok (some reply)) :
    (field.setDispatcher parts uninitialised fuel).dispatchMessage answer true message =
      .ok ⟨some reply, true, false⟩ := by
  have hset : SetAttributeStubDispatcher.dispatchMessage field.isImplemented field.isLittleEndian
      ((fun _ => ()) <$> field.type.read (parts field.type field.type.initial) uninitialised fuel)
      answer.value true message = .ok ⟨some reply, true, false⟩ := by
    unfold SetAttributeStubDispatcher.dispatchMessage
    rw [himplemented, readsArguments_itsValue, hread, hanswer]
    exact sendAttributeValueReply_eq hreply
  unfold Attribute.setDispatcher
  split
  · exact hset
  · exact hset

theorem served_value {dispatcher : Dispatcher} {handled : Handled σ field.type.Value} {call reply : Handed}
    {method : MethodId}
    (hcall : call.message = { VsomeipMessage.createMethodCall address method with payload := call.message.payload })
    (hserves : Serves dispatcher method helpers)
    (hhandle : field.handle parts uninitialised fuel (stamped client session call.message) stub = .ok handled)
    (hdispatch : dispatcher.dispatchMessage
      (field.answer parts uninitialised fuel (stamped client session call.message) stub) true
      (stamped client session call.message) = .ok ⟨some reply, true, false⟩)
    (hresponse : reply.message.messageType = .response) :
    field.serve parts uninitialised fuel helpers client session stub call.message =
      (some reply.message, handled.stub, handled.fired) := by
  have hmethod : (stamped client session call.message).method = method := by
    rw [hcall]
    rfl
  have hserved := served (hmethod.symm ▸ hserves) hdispatch
  unfold Attribute.serve
  dsimp only
  rw [hserved, hhandle, response_sent hresponse]
  rfl

theorem call_returns {method : MethodId} {inArgs : List (Write Unit)} {value : field.type.Value}
    {call reply : Handed} {next : σ} {fired : List field.type.Value}
    (hcall : writeArguments field.isLittleEndian inArgs (.createMethodCall address method) = .ok (some call))
    (hserve : field.serve parts uninitialised fuel helpers client session stub call.message =
      (some reply.message, next, fired))
    (hvalue : field.Transmits fuel value)
    (hreply : writeArguments field.isLittleEndian [field.type.write value]
      (stamped client session call.message).createResponseMessage = .ok (some reply)) (hshort : Short reply) :
    field.call parts uninitialised fuel address helpers client session method inArgs stub =
      .ok ⟨.success, value, next, fired⟩ := by
  have hheader := writeArguments_header hreply
  have hresponse : reply.message.messageType = .response := by
    rw [hheader]
    rfl
  have hvalid : reply.message.isValidCrc = true := by
    rw [hheader]
    rfl
  have hread : readArguments field.isLittleEndian (field.arguments.outArgs parts uninitialised fuel)
      field.arguments.initials reply.message = .ok (true, value, ()) := hvalue.arrives hreply hshort rfl
  have htaken : callMethodWithReply true (.createMethodCall address method) field.isLittleEndian inArgs
      (fun request => (field.serve parts uninitialised fuel helpers client session stub request).1)
      (field.arguments.outArgs parts uninitialised fuel) field.arguments.initials =
        .ok ⟨some call, .success, value, ()⟩ :=
    reply_taken hcall (congrArg Prod.fst hserve) hresponse hvalid hread
  unfold Attribute.call
  dsimp only
  rw [htaken]
  change Except.ok (Outcome.mk CallStatus.success value _ _) = _
  rw [hserve]

theorem stamped_method {method : MethodId} {inArgs : List (Write Unit)} {call : Handed}
    (hcall : writeArguments field.isLittleEndian inArgs (.createMethodCall address method) = .ok (some call)) :
    (stamped client session call.message).method = method := by
  rw [writeArguments_header hcall]
  rfl

theorem response_of_written {arguments : List (Write Unit)} {reply : Handed}
    (hreply : writeArguments field.isLittleEndian arguments message.createResponseMessage = .ok (some reply)) :
    reply.message.messageType = .response := by
  rw [writeArguments_header hreply]
  rfl

theorem getValue_performs (hadapter : Adapter parts uninitialised fuel field helpers)
    (himplemented : field.isImplemented = true) (hget : field.getMethodId ≠ 0)
    (hvalue : field.Transmits fuel (field.get client stub)) :
    field.perform parts uninitialised fuel address helpers stub (.getValue client session) =
      .ok ⟨.success, field.get client stub, stub, []⟩ := by
  have hcall : writeArguments field.isLittleEndian [] (.createMethodCall address field.getMethodId) =
      .ok (some ⟨.createMethodCall address field.getMethodId, none⟩) := rfl
  rcases hvalue.written (stamped client session (.createMethodCall address field.getMethodId)).createResponseMessage
    with ⟨reply, hreply, hshort⟩
  have hhandle : field.handle parts uninitialised fuel
      (stamped client session (.createMethodCall address field.getMethodId)) stub =
        .ok ⟨⟨some reply, true, false⟩, stub, [], false⟩ := by
    unfold Attribute.handle
    rw [stamped_method hcall, if_neg hadapter.distinct]
    exact dispatchGet_replies himplemented hreply
  have hanswer : (field.answer parts uninitialised fuel
      (stamped client session (.createMethodCall address field.getMethodId)) stub).value =
        field.type.write (field.get client stub) := by
    unfold Attribute.answer
    rw [hhandle]
    rfl
  have hserve := served_value (writeArguments_header hcall) hadapter.get hhandle
    (getDispatcher_replies himplemented hanswer hreply) (response_of_written hreply)
  change (if field.getMethodId ≠ 0 then _ else _) = _
  rw [if_pos hget]
  exact call_returns hcall hserve hvalue hreply hshort

theorem setValue_performs (hadapter : Adapter parts uninitialised fuel field helpers)
    (himplemented : field.isImplemented = true) {request : field.type.Value}
    (hrequest : field.Transmits fuel request)
    (hvalue : field.Transmits fuel (field.get client (field.onRemoteSet client request stub).1)) :
    field.perform parts uninitialised fuel address helpers stub (.setValue client session request) =
      .ok ⟨.success, field.get client (field.onRemoteSet client request stub).1,
        (field.onRemoteSet client request stub).1,
        if (field.onRemoteSet client request stub).2 && field.isObservable then
          [field.get client (field.onRemoteSet client request stub).1] else []⟩ := by
  rcases hrequest.written (.createMethodCall address field.setMethodId) with ⟨call, hcall, hcallShort⟩
  rcases hvalue.written (stamped client session call.message).createResponseMessage with ⟨reply, hreply, hshort⟩
  have hread : field.itsValue parts uninitialised fuel (stamped client session call.message) =
      .ok (true, request, ()) := hrequest.arrives hcall hcallShort rfl
  have hset : field.handle parts uninitialised fuel (stamped client session call.message) stub =
      field.dispatchSet parts uninitialised fuel true (stamped client session call.message) stub :=
    if_pos (stamped_method hcall)
  have hhandle := hset.trans (dispatchSet_replies himplemented hread hreply)
  have hanswer : (field.answer parts uninitialised fuel (stamped client session call.message) stub).value =
      field.type.write (field.get client (field.onRemoteSet client request stub).1) := by
    unfold Attribute.answer
    rw [hhandle]
    rfl
  have hserve := served_value (writeArguments_header hcall) hadapter.set hhandle
    (setDispatcher_replies himplemented hread hanswer hreply) (response_of_written hreply)
  exact call_returns hcall hserve hvalue hreply hshort

/-- Whatever clients get and set, one after another: they succeed, and see the values, the events and
    the stub that they would have at the stub itself. -/
theorem attribute_is_register (hadapter : Adapter parts uninitialised fuel field helpers)
    (himplemented : field.isImplemented = true) (hget : field.getMethodId ≠ 0)
    (operations : List (Operation field.type.Value)) (htransmits : field.TransmitsAll fuel operations stub) :
    field.performAll parts uninitialised fuel address helpers operations stub =
      .ok ((field.register operations stub).1.map (fun value => (CallStatus.success, value)),
        (field.register operations stub).2) := by
  induction operations generalizing stub with
  | nil => rfl
  | cons operation rest ih =>
    cases operation with
    | getValue client session =>
      unfold Attribute.performAll
      rw [getValue_performs hadapter himplemented hget htransmits.1]
      change (field.performAll parts uninitialised fuel address helpers rest stub >>= _) = _
      rw [ih htransmits.2]
      rfl
    | setValue client session request =>
      unfold Attribute.performAll
      rw [setValue_performs hadapter himplemented htransmits.1 htransmits.2.1]
      change (field.performAll parts uninitialised fuel address helpers rest
        (field.onRemoteSet client request stub).1 >>= _) = _
      rw [ih htransmits.2.2]
      rfl

end Refinement

def volume : Attribute (BitVec 8) where
  type := .integer uint8 none
  isLittleEndian := false
  isImplemented := true
  isObservable := true
  getMethodId := 0x11
  setMethodId := 0x12
  get _ stub := stub
  onRemoteSet _ request stub := (request, decide ((show BitVec 8 from request) ≠ stub))

def volumeHelpers : List Helper :=
  [⟨true, fun id => if id = 0x11 then some volume.getDispatcher
    else if id = 0x12 then some (volume.setDispatcher initialParts (0, 0) 0) else none⟩]

theorem volume_adapter : Adapter initialParts (0, 0) 0 volume volumeHelpers where
  get := Or.inl ⟨rfl, rfl⟩
  set := Or.inl ⟨rfl, rfl⟩
  distinct := by decide

theorem zero_transmits : volume.Transmits 0 (0 : BitVec 8) :=
  ⟨byte_survives 0, le_refl 0, written_shortly (by decide +kernel)⟩

theorem five_transmits : volume.Transmits 0 (5 : BitVec 8) :=
  ⟨byte_survives 5, le_refl 0, written_shortly (by decide +kernel)⟩

/-- Two clients: one looks, the other sets the volume twice to the same value, and the first looks again. -/
theorem volume_is_register :
    volume.performAll initialParts (0, 0) 0 ⟨0x1234, 1, 1, 0⟩ volumeHelpers
        [.getValue 7 1, .setValue 8 1 (5 : BitVec 8), .setValue 8 2 (5 : BitVec 8), .getValue 7 2] (0 : BitVec 8) =
      .ok ((volume.register [.getValue 7 1, .setValue 8 1 (5 : BitVec 8), .setValue 8 2 (5 : BitVec 8),
          .getValue 7 2] (0 : BitVec 8)).1.map (fun value => (CallStatus.success, value)),
        (volume.register [.getValue 7 1, .setValue 8 1 (5 : BitVec 8), .setValue 8 2 (5 : BitVec 8),
          .getValue 7 2] (0 : BitVec 8)).2) := by
  refine attribute_is_register volume_adapter rfl (by decide) _ ?_
  exact ⟨zero_transmits, five_transmits, five_transmits, five_transmits, five_transmits, five_transmits, trivial⟩

end SomeIPRuntime.RemoteAttributes
