import Mathlib.Data.List.AList
import SomeIPRuntime.Address

set_option autoImplicit false

/-!
# The factory

The tables of `Factory`, of the stub managers and of the subscription handlers, and the
blocks that the registration of a stub and the creation of a proxy consist of. An object
is a number.
-/
namespace SomeIPRuntime

abbrev ConnectionId := String

structure CommonAPIAddress where
  domain : String
  interface : String
  instance_ : String
  deriving DecidableEq, Repr

namespace Factory

/-- `getConnectionId` returns the name of the vsomeip application. -/
structure Connection where
  object : ℕ
  connectionId : ConnectionId
  deriving DecidableEq, Repr

/-- `eventgroups` are those of the selective events of the interface. -/
structure StubAdapter where
  object : ℕ
  someipAddress : Address
  address : CommonAPIAddress
  connection : Connection
  eventgroups : List EventgroupId
  deriving DecidableEq, Repr

abbrev StubKey := ℕ × ServiceId × InstanceId
abbrev HandlerKey := ℕ × ServiceId × InstanceId × EventgroupId

/-- `registeredStubAdapters` and `subscription` are members of stub managers and connections, here
    with the connection in the key; a subscription handler is the adapter it belongs to. Of the
    connection objects, `created` have been made. `proxies` are the connections of the proxies
    that are alive, `disconnected` the connections that `disconnect` was called for, and
    `belowZero` holds once a counter was decremented that was zero. -/
structure State where
  services : AList fun _ : CommonAPIAddress => StubAdapter
  registeredStubAdapters : AList fun _ : StubKey => StubAdapter
  subscription : AList fun _ : HandlerKey => ℕ
  connections : AList fun _ : ConnectionId => Connection
  activeConnections : ℕ → BitVec 32
  created : ℕ
  adapters : ℕ
  proxies : List Connection
  disconnected : Finset ℕ
  belowZero : Bool

def initial : State := ⟨∅, ∅, ∅, ∅, fun _ => 0, 0, 0, [], ∅, false⟩

/-- How `AddressTranslator::translate` maps addresses. Aliases are addresses that go forward to one
    SOME/IP address. -/
structure AddressTranslator where
  forward : CommonAPIAddress → Option Address
  backward : Address → Option CommonAPIAddress

def anyAddress : Address := ⟨0, 0, 0xFF, 0xFFFFFFFF⟩

def noAddress : CommonAPIAddress := ⟨"", "", ""⟩

/-- The two overloads: a connection by its name, or the one of a main loop context. -/
inductive Overload
  | connectionId (connection : ConnectionId)
  | mainLoopContext (name : Option ConnectionId)
  deriving DecidableEq, Repr

def Overload.connection : Overload → ConnectionId
  | .connectionId connection => connection
  | .mainLoopContext name => name.getD ""

/-- The create function for an interface, by the name it is registered for: the first one in order
    that is not less, if it has the same major part. -/
def findCreateFunction (functions : List String) (interface : String) : Option String :=
  match functions.find? fun name => ¬ name < interface with
  | none => none
  | some name =>
    if name = interface then some interface
    else if (interface.toList.takeWhile (· ≠ '_')).isPrefixOf name.toList then some name
    else none

def incrementConnection (connection : Connection) (s : State) : State :=
  match s.connections.lookup connection.connectionId with
  | some connection =>
    { s with
      activeConnections :=
        Function.update s.activeConnections connection.object
          (s.activeConnections connection.object + 1) }
  | none => s

def disconnect (connection : Connection) (s : State) : State :=
  { s with
    connections := s.connections.erase connection.connectionId
    disconnected := insert connection.object s.disconnected }

def decrementConnection (connection : Connection) (s : State) : State :=
  match s.connections.lookup connection.connectionId with
  | some connection =>
    let activeConnections := s.activeConnections connection.object - 1
    let t := { s with
      activeConnections := Function.update s.activeConnections connection.object activeConnections
      belowZero := s.belowZero || s.activeConnections connection.object = 0 }
    if activeConnections = 0 then disconnect connection t else t
  | none => s

/-- `application` is the name of the application that vsomeip creates for a new connection, if its
    `connect` succeeds. -/
def getConnection (connectionId : ConnectionId) (application : Option ConnectionId) (s : State) :
    Option (Connection × State) :=
  match s.connections.lookup connectionId with
  | some connection => some (connection, incrementConnection connection s)
  | none =>
    application.map fun name =>
      let connection : Connection := ⟨s.created, name⟩
      (connection, incrementConnection connection
        { s with
          connections := s.connections.insert connectionId connection
          created := s.created + 1 })

def StubAdapter.key (adapter : StubAdapter) : StubKey :=
  (adapter.connection.object, adapter.someipAddress.service, adapter.someipAddress.instance_)

def StubAdapter.handlerKey (adapter : StubAdapter) (eventgroup : EventgroupId) : HandlerKey :=
  (adapter.connection.object, adapter.someipAddress.service, adapter.someipAddress.instance_, eventgroup)

def registerSubscriptionHandler (adapter : StubAdapter) (s : State) (eventgroup : EventgroupId) : State :=
  { s with subscription := s.subscription.insert (adapter.handlerKey eventgroup) adapter.object }

def unregisterSubscriptionHandler (adapter : StubAdapter) (s : State) (eventgroup : EventgroupId) :
    State :=
  { s with subscription := s.subscription.erase (adapter.handlerKey eventgroup) }

def registerSelectiveEventHandlers (adapter : StubAdapter) (s : State) : State :=
  adapter.eventgroups.foldl (registerSubscriptionHandler adapter) s

def unregisterSelectiveEventHandlers (adapter : StubAdapter) (s : State) : State :=
  adapter.eventgroups.foldl (unregisterSubscriptionHandler adapter) s

section Translator
variable (translator : AddressTranslator)

/-- The SOME/IP address for a stub. Only the overload with a context looks at the result of
    `translate`. -/
def stubAddress (overload : Overload) (address : CommonAPIAddress) : Option Address :=
  match overload with
  | .connectionId _ => some ((translator.forward address).getD anyAddress)
  | .mainLoopContext _ => translator.forward address

def StubAdapter.init (adapter : StubAdapter) : StubAdapter :=
  { adapter with address := (translator.backward adapter.someipAddress).getD adapter.address }

def registerStubAdapter (adapter : StubAdapter) (s : State) : Option State :=
  (translator.backward adapter.someipAddress).bind fun address =>
    if address ∈ s.services then none
    else some { s with
      services := s.services.insert address adapter
      registeredStubAdapters := s.registeredStubAdapters.insert adapter.key adapter }

end Translator

def unregisterStub (address : CommonAPIAddress) (s : State) : Option State :=
  (s.services.lookup address).map fun adapter =>
    let s := unregisterSelectiveEventHandlers adapter s
    decrementConnection adapter.connection
      { s with
        registeredStubAdapters := s.registeredStubAdapters.erase adapter.key
        services := s.services.erase address }

/-- `StubAdapter::~StubAdapter` -/
def destroyAdapter (adapter : StubAdapter) (s : State) : State :=
  (unregisterStub adapter.address s).getD s

section Calls
variable (translator : AddressTranslator) (functions : List String)

/-- The proxy is its connection, which `proxy` says whether the create function makes. -/
def createProxy (overload : Overload) (domain interface instance_ : String)
    (application : Option ConnectionId) (proxy : Bool) (s : State) : Option Connection × State :=
  match findCreateFunction functions interface with
  | none => (none, s)
  | some itsInterface =>
    match translator.forward ⟨domain, itsInterface, instance_⟩ with
    | none => (none, s)
    | some _ =>
      match getConnection overload.connection application s with
      | none => (none, s)
      | some (connection, s) =>
        if proxy then (some connection, { s with proxies := connection :: s.proxies }) else (none, s)

/-- `Proxy::~Proxy` -/
def destroyProxy (connection : Connection) (s : State) : State :=
  decrementConnection connection { s with proxies := s.proxies.erase connection }

/-- `eventgroups` are the selective ones of the adapter, if the create function makes one. -/
def registerStub (overload : Overload) (domain interface instance_ : String)
    (application : Option ConnectionId) (eventgroups : Option (List EventgroupId)) (s : State) :
    Bool × State :=
  match findCreateFunction functions interface with
  | none => (false, s)
  | some itsInterface =>
    if ⟨domain, itsInterface, instance_⟩ ∈ s.services then (false, s)
    else
      match stubAddress translator overload ⟨domain, itsInterface, instance_⟩ with
      | none => (false, s)
      | some someipAddress =>
        match getConnection overload.connection application s with
        | none => (false, s)
        | some (connection, s) =>
          match eventgroups with
          | none => (false, s)
          | some eventgroups =>
            let adapter : StubAdapter := ⟨s.adapters, someipAddress, noAddress, connection, eventgroups⟩
            let s := registerSelectiveEventHandlers adapter { s with adapters := s.adapters + 1 }
            let adapter := adapter.init translator
            match registerStubAdapter translator adapter s with
            | some s => (true, s)
            | none => (false, destroyAdapter adapter s)

def registerManagedService (adapter : StubAdapter) (s : State) : Bool × State :=
  match registerStubAdapter translator adapter s with
  | some s => (true, incrementConnection adapter.connection s)
  | none => (false, s)

def unregisterManagedService (address : CommonAPIAddress) (s : State) : Bool × State :=
  match unregisterStub address s with
  | some s => (true, s)
  | none => (false, s)

end Calls

end Factory

end SomeIPRuntime
