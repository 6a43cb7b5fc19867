import SomeIPRuntime.ConnectionCounters
import SomeIPRuntime.StepSystems
import SomeIPRuntime.Tables

set_option autoImplicit false

/-!
# Shutdown of a connection

The thread that drops a connection to zero users holds `connectionMutex_` and joins the two threads of
the connection. These run callbacks, and the application may create and destroy proxies and stubs
in them, as its own threads do. Each block under a mutex is one step. A connection in `doDisconnect` is
in `connections_` until it is released; only the thread that holds the mutex could see it there, and in the
tables of the factory it is gone from the start.
-/
namespace SomeIPRuntime.Shutdown
open StepSystems Factory

inductive ThreadId
  | application (number : ℕ)
  | cleanup (object : ℕ)
  | dispatch (object : ℕ)
  deriving DecidableEq, Repr

inductive ProxyCallback
  | eventMessage
  | messageReply
  | availability
  | subscriptionError
  deriving DecidableEq, Repr

/-- What the threads of a connection run of the application. A callback for a proxy has locked a weak
    pointer to it; the others keep nothing alive. -/
inductive Callback
  | proxy (kind : ProxyCallback) (proxy : ℕ)
  | stubMessage
  | subscriptionHandler
  /-- the destruction of a reply handler, with what it has captured -/
  | replyHandlerDestruction
  deriving DecidableEq, Repr

def Callback.pins : Callback → Option ℕ
  | .proxy _ pinned => some pinned
  | _ => none

inductive Request
  | getConnection (connectionId : ConnectionId) (application : Option ConnectionId)
  | incrementConnection (connection : Connection)
  | decrementConnection (connection : Connection)
  deriving DecidableEq, Repr

inductive Phase
  | cancelCleanup
  | joinCleanup
  | stop
  | joinDispatch
  | release
  deriving DecidableEq, Repr

/-- The call that a thread is in. Behind `getConnection` its caller has the connection; in
    `disconnect` the thread holds the mutex. -/
inductive Call
  | waiting (request : Request)
  | got (connection : Connection)
  | disconnecting (connection : Connection) (phase : Phase)
  deriving DecidableEq, Repr

structure Proxy where
  connection : Connection
  owned : ℕ
  deriving DecidableEq, Repr

/-- `stubs` are the connections of the stubs in `services_` that are counted, `uncounted` those of
    managed stubs that are not counted yet. `leaked` are references that nobody gives back. -/
structure State where
  factory : Factory.State
  proxies : AList fun _ : ℕ => Proxy
  stubs : List Connection
  uncounted : List Connection
  leaked : List Connection
  calls : AList fun _ : ThreadId => Call
  callbacks : AList fun _ : ThreadId => Callback
  cancelled : Finset ℕ
  stopped : Finset ℕ
  ended : Finset ThreadId

def initial : State := ⟨Factory.initial, ∅, [], [], [], ∅, ∅, ∅, ∅, ∅⟩

inductive Outcome
  | proxy (proxy : ℕ)
  | stub
  | leak
  | giveBack
  deriving DecidableEq, Repr

inductive Action
  /-- in `createProxy` and `registerStub` -/
  | getConnection (t : ThreadId) (connectionId : ConnectionId) (application : Option ConnectionId)
  | registerManagedService (t : ThreadId) (connection : Connection)
  | unregisterStub (t : ThreadId) (connection : Connection) (counted : Bool)
  | copyProxy (proxy : ℕ)
  | dropProxy (t : ThreadId) (proxy : ℕ)
  /-- the mutex is locked -/
  | acquire (t : ThreadId)
  | use (t : ThreadId) (outcome : Outcome)
  | disconnect (t : ThreadId)
  | startCallback (t : ThreadId) (callback : Callback)
  | endCallback (t : ThreadId)
  | finish (t : ThreadId)
  deriving DecidableEq, Repr

/-- The thread runs code of the application, and is in no call. -/
def Free (s : State) (t : ThreadId) : Prop :=
  t ∉ s.calls ∧
    match t with
    | .application _ => True
    | _ => t ∈ s.callbacks

instance (s : State) : (t : ThreadId) → Decidable (Free s t)
  | .application _ => inferInstanceAs (Decidable (_ ∧ True))
  | .cleanup _ => inferInstanceAs (Decidable (_ ∧ _ ∈ _))
  | .dispatch _ => inferInstanceAs (Decidable (_ ∧ _ ∈ _))

def Call.holdsMutex : Call → Bool
  | .disconnecting _ _ => true
  | _ => false

def MutexFree (s : State) : Prop := ∀ x ∈ s.calls.entries, x.2.holdsMutex = false

instance (s : State) : Decidable (MutexFree s) := inferInstanceAs (Decidable (∀ _ ∈ _, _))

def Pinned (callbacks : AList fun _ : ThreadId => Callback) (proxy : ℕ) : Prop :=
  ∃ x ∈ callbacks.entries, x.2.pins = some proxy

instance (callbacks : AList fun _ : ThreadId => Callback) (proxy : ℕ) :
    Decidable (Pinned callbacks proxy) := inferInstanceAs (Decidable (∃ _ ∈ _, _))

def enter (t : ThreadId) (request : Request) (s : State) : State :=
  { s with calls := s.calls.insert t (.waiting request) }

def leave (t : ThreadId) (s : State) : State := { s with calls := s.calls.erase t }

def destroyProxy (t : ThreadId) (proxy : ℕ) (connection : Connection) (s : State) : State :=
  enter t (.decrementConnection connection) { s with proxies := s.proxies.erase proxy }

def dropped (connection : Connection) (s : Factory.State) : Option Connection :=
  match s.connections.lookup connection.connectionId with
  | some found => if s.activeConnections found.object - 1 = 0 then some found else none
  | none => none

/-- The block of a request. It ends with the mutex unlocked, unless the connection is dropped. -/
def acquire (t : ThreadId) (request : Request) (s : State) : State :=
  match request with
  | .getConnection connectionId application =>
    match Factory.getConnection connectionId application s.factory with
    | some (connection, factory) =>
      { s with factory := factory, calls := s.calls.insert t (.got connection) }
    | none => leave t s
  | .incrementConnection connection =>
    leave t { s with
      factory := Factory.incrementConnection connection s.factory
      uncounted := s.uncounted.erase connection
      stubs := connection :: s.stubs }
  | .decrementConnection connection =>
    let u := { s with factory := Factory.decrementConnection connection s.factory }
    match dropped connection s.factory with
    | some found => { u with calls := u.calls.insert t (.disconnecting found .cancelCleanup) }
    | none => leave t u

def use (t : ThreadId) (connection : Connection) (outcome : Outcome) (s : State) : Option State :=
  match outcome with
  | .proxy proxy =>
    if proxy ∈ s.proxies then none
    else some (leave t { s with proxies := s.proxies.insert proxy ⟨connection, 1⟩ })
  | .stub => some (leave t { s with stubs := connection :: s.stubs })
  | .leak => some (leave t { s with leaked := connection :: s.leaked })
  | .giveBack => some (enter t (.decrementConnection connection) s)

def disconnect (t : ThreadId) (connection : Connection) (phase : Phase) (s : State) : Option State :=
  let next (phase : Phase) (s : State) : State :=
    { s with calls := s.calls.insert t (.disconnecting connection phase) }
  match phase with
  | .cancelCleanup =>
    some (next .joinCleanup { s with cancelled := insert connection.object s.cancelled })
  | .joinCleanup =>
    if t = .cleanup connection.object ∨ .cleanup connection.object ∈ s.ended then some (next .stop s)
    else none
  | .stop => some (next .joinDispatch { s with stopped := insert connection.object s.stopped })
  | .joinDispatch =>
    if t = .dispatch connection.object ∨ .dispatch connection.object ∈ s.ended then
      some (next .release s)
    else none
  | .release => some (leave t s)

def CanStart (s : State) (t : ThreadId) (callback : Callback) : Prop :=
  match t, callback with
  | .application _, _ => False
  | .cleanup object, .proxy .messageReply proxy =>
    ∃ p ∈ s.proxies.lookup proxy, p.connection.object = object
  | .cleanup object, .replyHandlerDestruction => object < s.factory.created
  | .cleanup _, _ => False
  | .dispatch object, .proxy _ proxy => ∃ p ∈ s.proxies.lookup proxy, p.connection.object = object
  | .dispatch object, .stubMessage => ∃ connection ∈ s.stubs ++ s.uncounted, connection.object = object
  | .dispatch object, _ => object < s.factory.created

instance (s : State) : (t : ThreadId) → (callback : Callback) → Decidable (CanStart s t callback)
  | .application _, _ => inferInstanceAs (Decidable False)
  | .cleanup _, .proxy .messageReply _ => inferInstanceAs (Decidable (∃ _ ∈ _, _))
  | .cleanup _, .proxy .eventMessage _ => inferInstanceAs (Decidable False)
  | .cleanup _, .proxy .availability _ => inferInstanceAs (Decidable False)
  | .cleanup _, .proxy .subscriptionError _ => inferInstanceAs (Decidable False)
  | .cleanup _, .replyHandlerDestruction => inferInstanceAs (Decidable (_ < _))
  | .cleanup _, .stubMessage => inferInstanceAs (Decidable False)
  | .cleanup _, .subscriptionHandler => inferInstanceAs (Decidable False)
  | .dispatch _, .proxy _ _ => inferInstanceAs (Decidable (∃ _ ∈ _, _))
  | .dispatch _, .stubMessage => inferInstanceAs (Decidable (∃ _ ∈ _, _))
  | .dispatch _, .subscriptionHandler => inferInstanceAs (Decidable (_ < _))
  | .dispatch _, .replyHandlerDestruction => inferInstanceAs (Decidable (_ < _))

def CanFinish (s : State) (t : ThreadId) : Prop :=
  match t with
  | .application _ => False
  | .cleanup object => object ∈ s.cancelled
  | .dispatch object => object ∈ s.stopped

instance (s : State) : (t : ThreadId) → Decidable (CanFinish s t)
  | .application _ => inferInstanceAs (Decidable False)
  | .cleanup _ => inferInstanceAs (Decidable (_ ∈ _))
  | .dispatch _ => inferInstanceAs (Decidable (_ ∈ _))

def dropProxy (t : ThreadId) (proxy : ℕ) (p : Proxy) (s : State) : State :=
  if p.owned = 1 ∧ ¬ Pinned s.callbacks proxy then destroyProxy t proxy p.connection s
  else { s with proxies := s.proxies.insert proxy { p with owned := p.owned - 1 } }

def endCallback (t : ThreadId) (callback : Callback) (s : State) : State :=
  let u := { s with callbacks := s.callbacks.erase t }
  match callback.pins with
  | none => u
  | some proxy =>
    match s.proxies.lookup proxy with
    | none => u
    | some p =>
      if p.owned = 0 ∧ ¬ Pinned u.callbacks proxy then destroyProxy t proxy p.connection u else u

def step (s : State) : Action → Option State
  | .getConnection t connectionId application =>
    if Free s t then some (enter t (.getConnection connectionId application) s) else none
  | .registerManagedService t connection =>
    if Free s t then
      some (enter t (.incrementConnection connection) { s with uncounted := connection :: s.uncounted })
    else none
  | .unregisterStub t connection true =>
    if Free s t ∧ connection ∈ s.stubs then
      some (enter t (.decrementConnection connection) { s with stubs := s.stubs.erase connection })
    else none
  | .unregisterStub t connection false =>
    if Free s t ∧ connection ∈ s.uncounted then
      some (enter t (.decrementConnection connection) { s with uncounted := s.uncounted.erase connection })
    else none
  | .copyProxy proxy =>
    (s.proxies.lookup proxy).map fun p =>
      { s with proxies := s.proxies.insert proxy { p with owned := p.owned + 1 } }
  | .dropProxy t proxy =>
    (s.proxies.lookup proxy).bind fun p =>
      if Free s t ∧ 0 < p.owned then some (dropProxy t proxy p s) else none
  | .acquire t =>
    match s.calls.lookup t with
    | some (.waiting request) => if MutexFree s then some (acquire t request s) else none
    | _ => none
  | .use t outcome =>
    match s.calls.lookup t with
    | some (.got connection) => use t connection outcome s
    | _ => none
  | .disconnect t =>
    match s.calls.lookup t with
    | some (.disconnecting connection phase) => disconnect t connection phase s
    | _ => none
  | .startCallback t callback =>
    if t ∉ s.calls ∧ t ∉ s.callbacks ∧ t ∉ s.ended ∧ CanStart s t callback then
      some { s with callbacks := s.callbacks.insert t callback }
    else none
  | .endCallback t =>
    if t ∈ s.calls then none
    else (s.callbacks.lookup t).map fun callback => endCallback t callback s
  | .finish t =>
    if t ∉ s.calls ∧ t ∉ s.callbacks ∧ CanFinish s t then some { s with ended := insert t s.ended }
    else none

end SomeIPRuntime.Shutdown
