import SomeIPRuntime.MessageHandlers
import SomeIPRuntime.StubUnregistration

set_option autoImplicit false

/-!
# Messages to stubs

The factory keeps adapters by their CommonAPI address, and the translator tells major versions apart.
The stub manager of a connection keeps them by service and instance, and so does vsomeip with the
message handler through which it is reached.
-/
namespace SomeIPRuntime.StubRouting
open Factory StepSystems

/-- `connections` is what each connection object has at vsomeip. -/
structure State where
  factory : Factory.State
  connections : ℕ → MessageHandlers.State

def initial : State := ⟨Factory.initial, fun _ => MessageHandlers.initial⟩

inductive Action
  | getConnection (connectionId : ConnectionId) (application : Option ConnectionId)
  | registerStubAdapter (adapter : StubAdapter)
  | incrementConnection (connection : Connection)
  | unregisterStub (address : CommonAPIAddress)
  | decrementConnection (connection : Connection)

/-- `StubManager::handleMessage`: the adapter that gets a message. -/
def handleMessage (connection : ℕ) (service : ServiceId) (instance_ : InstanceId) (s : State) :
    Option StubAdapter :=
  s.factory.registeredStubAdapters.lookup (connection, service, instance_)

/-- The connection that `Factory::decrementConnection` finds and that has lost its last user then. -/
def disconnects (connection : Connection) (s : Factory.State) : Option Connection :=
  (s.connections.lookup connection.connectionId).filter fun found =>
    s.activeConnections found.object - 1 = 0

/-- `stop` ends what the application has at vsomeip, and `clear_all_handler` removes its handlers. -/
def doDisconnect (s : MessageHandlers.State) : MessageHandlers.State :=
  { s with
    requested := ∅
    offered := ∅
    offeredEvents := ∅
    handlers := ∅ }

def getConnection (connectionId : ConnectionId) (application : Option ConnectionId) (s : State) : State :=
  match Factory.getConnection connectionId application s.factory with
  | some (_, factory) => { s with factory := factory }
  | none => s

def incrementConnection (connection : Connection) (s : State) : State :=
  { s with factory := Factory.incrementConnection connection s.factory }

def decrementConnection (connection : Connection) (s : State) : State where
  factory := Factory.decrementConnection connection s.factory
  connections :=
    match disconnects connection s.factory with
    | some found => Function.update s.connections found.object (doDisconnect (s.connections found.object))
    | none => s.connections

/-- `unregisterStub` as long as it holds the lock. The service is unregistered where the stub manager
    has had an adapter for it. -/
def removeStub (address : CommonAPIAddress) (adapter : StubAdapter) (s : State) : State where
  factory :=
    let factory := unregisterSelectiveEventHandlers adapter s.factory
    { factory with
      registeredStubAdapters := factory.registeredStubAdapters.erase adapter.key
      services := factory.services.erase address }
  connections :=
    if adapter.key ∈ s.factory.registeredStubAdapters then
      Function.update s.connections adapter.connection.object
        (MessageHandlers.unregisterService adapter.someipAddress (s.connections adapter.connection.object))
    else s.connections

def unregisterStub (address : CommonAPIAddress) (s : State) : State :=
  match s.factory.services.lookup address with
  | some adapter => decrementConnection adapter.connection (removeStub address adapter s)
  | none => s

section Steps
variable (translator : AddressTranslator)

def registerStubAdapter (adapter : StubAdapter) (s : State) : State :=
  match Factory.registerStubAdapter translator adapter s.factory with
  | some factory =>
    { factory := factory
      connections := Function.update s.connections adapter.connection.object
        (MessageHandlers.registerService adapter.someipAddress (s.connections adapter.connection.object)) }
  | none => s

def step (s : State) : Action → Option State
  | .getConnection connectionId application => some (getConnection connectionId application s)
  | .registerStubAdapter adapter => some (registerStubAdapter translator adapter s)
  | .incrementConnection connection => some (incrementConnection connection s)
  | .unregisterStub address => some (unregisterStub address s)
  | .decrementConnection connection => some (decrementConnection connection s)

end Steps

/-- An adapter is offered, and a message of its service, instance and version reaches the stub manager of
    its connection and there the adapter. -/
structure Reached (s : State) (adapter : StubAdapter) : Prop where
  running : adapter.connection.object ∉ s.factory.disconnected
  handler : adapter.someipAddress.key ∈ (s.connections adapter.connection.object).handlers
  selected : handleMessage adapter.connection.object adapter.someipAddress.service
    adapter.someipAddress.instance_ s = some adapter
  offered : adapter.someipAddress ∈ (s.connections adapter.connection.object).offered

def Routed (s : State) : Prop :=
  ∀ address adapter, s.factory.services.lookup address = some adapter → Reached s adapter

section Apart
variable (translator : AddressTranslator)

/-- No adapter in `services` uses the connection that is disconnected. -/
def Spares (connection : Connection) (s : Factory.State)
    (services : AList fun _ : CommonAPIAddress => StubAdapter) : Prop :=
  ∀ found ∈ disconnects connection s, ∀ entry ∈ services.entries, entry.2.connection.object ≠ found.object

instance (connection : Connection) (s : Factory.State)
    (services : AList fun _ : CommonAPIAddress => StubAdapter) : Decidable (Spares connection s services) :=
  inferInstanceAs (Decidable (∀ found ∈ disconnects connection s, ∀ entry ∈ services.entries,
    entry.2.connection.object ≠ found.object))

/-- An adapter is inserted only where its connection has not been disconnected and no other adapter
    there has the same service and instance. A connection loses its last user only where no adapter
    that is left uses it. -/
def Apart (s : State) : Action → Prop
  | .registerStubAdapter adapter =>
    (∃ address ∈ translator.backward adapter.someipAddress, address ∉ s.factory.services) →
      adapter.connection.object ∉ s.factory.disconnected ∧
        ∀ entry ∈ s.factory.services.entries, entry.2.key ≠ adapter.key
  | .unregisterStub address =>
    ∀ adapter ∈ s.factory.services.lookup address,
      Spares adapter.connection s.factory (s.factory.services.erase address)
  | .decrementConnection connection => Spares connection s.factory s.factory.services
  | .getConnection _ _ | .incrementConnection _ => True

instance (s : State) : (a : Action) → Decidable (Apart translator s a)
  | .registerStubAdapter adapter =>
    inferInstanceAs (Decidable
      ((∃ address ∈ translator.backward adapter.someipAddress, address ∉ s.factory.services) →
        adapter.connection.object ∉ s.factory.disconnected ∧
          ∀ entry ∈ s.factory.services.entries, entry.2.key ≠ adapter.key))
  | .unregisterStub address =>
    inferInstanceAs (Decidable (∀ adapter ∈ s.factory.services.lookup address,
      Spares adapter.connection s.factory (s.factory.services.erase address)))
  | .decrementConnection connection =>
    inferInstanceAs (Decidable (Spares connection s.factory s.factory.services))
  | .getConnection _ _ | .incrementConnection _ => .isTrue trivial

end Apart

section Invariant
variable {translator : AddressTranslator} {s t : State} {address : CommonAPIAddress}
  {adapter other : StubAdapter} {connection : Connection}

structure Good (translator : AddressTranslator) (s : State) : Prop where
  routed : Routed s
  stub : ∀ object, (s.connections object).stubMessageHandler = true
  mapped : ∀ address adapter, s.factory.services.lookup address = some adapter →
    translator.backward adapter.someipAddress = some address

/-- Here too the factory does what `Factory.unregisterStub` does. -/
theorem unregisterStub_factory (address : CommonAPIAddress) (s : State) :
    (unregisterStub address s).factory = (Factory.unregisterStub address s.factory).getD s.factory := by
  unfold unregisterStub Factory.unregisterStub
  cases s.factory.services.lookup address with
  | none => rfl
  | some adapter => rfl

/-- What is removed, and that the connections of the factory stay. -/
theorem removeStub_factory (address : CommonAPIAddress) (adapter : StubAdapter) (s : State) :
    ∃ subscription, (removeStub address adapter s).factory = { s.factory with
      subscription := subscription
      registeredStubAdapters := s.factory.registeredStubAdapters.erase adapter.key
      services := s.factory.services.erase address } := by
  obtain ⟨subscription, hsubscription⟩ :=
    ConnectionReferences.unregisterSelectiveEventHandlers_eq adapter s.factory
  refine ⟨subscription, ?_⟩
  unfold removeStub
  rw [hsubscription]

/-- The tables of the factory that the connections do not change. -/
theorem decrementConnection_tables (connection : Connection) (s : Factory.State) :
    (Factory.decrementConnection connection s).services = s.services ∧
      (Factory.decrementConnection connection s).registeredStubAdapters = s.registeredStubAdapters :=
  have htables := StubUnregistration.tables_decrementConnection connection s
  ⟨congrArg StubRegistration.Tables.services htables,
    congrArg StubRegistration.Tables.registeredStubAdapters htables⟩

theorem mem_disconnected_decrement {object : ℕ} (connection : Connection) (s : Factory.State) :
    object ∈ (Factory.decrementConnection connection s).disconnected ↔
      object ∈ s.disconnected ∨ ∃ found ∈ disconnects connection s, found.object = object := by
  unfold Factory.decrementConnection disconnects
  cases s.connections.lookup connection.connectionId with
  | none => simp
  | some found =>
    dsimp only
    by_cases hzero : s.activeConnections found.object - 1 = 0
    · rw [if_pos hzero, Option.filter_some, if_pos (decide_eq_true hzero)]
      simp [disconnect, eq_comm, or_comm]
    · rw [if_neg hzero, Option.filter_some, if_neg (by simpa using hzero)]
      simp

theorem registerStubAdapter_cases (translator : AddressTranslator) (adapter : StubAdapter) (s : State) :
    ((∀ address ∈ translator.backward adapter.someipAddress, address ∈ s.factory.services) ∧
      registerStubAdapter translator adapter s = s) ∨
    ∃ address, translator.backward adapter.someipAddress = some address ∧
      address ∉ s.factory.services ∧
      (registerStubAdapter translator adapter s).factory.services =
        s.factory.services.insert address adapter ∧
      (registerStubAdapter translator adapter s).factory.registeredStubAdapters =
        s.factory.registeredStubAdapters.insert adapter.key adapter ∧
      (registerStubAdapter translator adapter s).factory.disconnected = s.factory.disconnected ∧
      (registerStubAdapter translator adapter s).connections =
        Function.update s.connections adapter.connection.object
          (MessageHandlers.registerService adapter.someipAddress
            (s.connections adapter.connection.object)) := by
  unfold registerStubAdapter Factory.registerStubAdapter
  cases hbackward : translator.backward adapter.someipAddress with
  | none => exact Or.inl ⟨nofun, rfl⟩
  | some address =>
    by_cases hmem : address ∈ s.factory.services
    · left
      refine ⟨fun other hother => ?_, ?_⟩
      · cases hother
        exact hmem
      · rw [Option.bind_some, if_pos hmem]
    · right
      rw [Option.bind_some, if_neg hmem]
      exact ⟨address, rfl, hmem, rfl, rfl, rfl, rfl⟩

/-- Adapters on one connection that are kept apart have different services or instances. -/
theorem address_key_ne (hkey : other.key ≠ adapter.key)
    (hobject : other.connection.object = adapter.connection.object) :
    other.someipAddress.key ≠ adapter.someipAddress.key := by
  intro hsame
  refine hkey ?_
  unfold StubAdapter.key
  rw [hobject]
  exact congrArg (Prod.mk adapter.connection.object) hsame

theorem Reached.registered (hstub : (s.connections adapter.connection.object).stubMessageHandler = true)
    (hrunning : adapter.connection.object ∉ t.factory.disconnected)
    (hadapters : t.factory.registeredStubAdapters =
      s.factory.registeredStubAdapters.insert adapter.key adapter)
    (hconnections : t.connections = Function.update s.connections adapter.connection.object
      (MessageHandlers.registerService adapter.someipAddress
        (s.connections adapter.connection.object))) : Reached t adapter where
  running := hrunning
  handler := by
    rw [hconnections, Function.update_self, MessageHandlers.registerService, hstub]
    exact Finset.mem_insert_self _ _
  selected := by
    unfold handleMessage
    rw [hadapters]
    exact AList.lookup_insert _
  offered := by
    rw [hconnections, Function.update_self, MessageHandlers.registerService, hstub]
    exact Finset.mem_insert_self _ _

theorem Reached.register (h : Reached s other) (hkey : other.key ≠ adapter.key)
    (hdisconnected : t.factory.disconnected = s.factory.disconnected)
    (hadapters : t.factory.registeredStubAdapters =
      s.factory.registeredStubAdapters.insert adapter.key adapter)
    (hconnections : t.connections = Function.update s.connections adapter.connection.object
      (MessageHandlers.registerService adapter.someipAddress
        (s.connections adapter.connection.object))) : Reached t other := by
  have hselected : handleMessage other.connection.object other.someipAddress.service
      other.someipAddress.instance_ t = some other := by
    unfold handleMessage
    rw [hadapters]
    exact (AList.lookup_insert_ne hkey).trans h.selected
  have hrunning : other.connection.object ∉ t.factory.disconnected := hdisconnected ▸ h.running
  by_cases hobject : other.connection.object = adapter.connection.object
  · have hhandler := h.handler
    have hoffered := h.offered
    rw [hobject] at hhandler hoffered
    refine ⟨hrunning, ?_, hselected, ?_⟩
    all_goals
      rw [hobject, hconnections, Function.update_self]
      unfold MessageHandlers.registerService
      split
    · exact hhandler
    · exact Finset.mem_insert_of_mem hhandler
    · exact hoffered
    · exact Finset.mem_insert_of_mem hoffered
  · refine ⟨hrunning, ?_, hselected, ?_⟩
    all_goals rw [hconnections, Function.update_of_ne hobject]
    · exact h.handler
    · exact h.offered

theorem Reached.remove (h : Reached s other) (hkey : other.key ≠ adapter.key)
    (hdisconnected : t.factory.disconnected = s.factory.disconnected)
    (hadapters : t.factory.registeredStubAdapters =
      s.factory.registeredStubAdapters.erase adapter.key)
    (hconnections : t.connections = Function.update s.connections adapter.connection.object
      (MessageHandlers.unregisterService adapter.someipAddress
        (s.connections adapter.connection.object))) : Reached t other := by
  have hselected : handleMessage other.connection.object other.someipAddress.service
      other.someipAddress.instance_ t = some other := by
    unfold handleMessage
    rw [hadapters]
    exact (AList.lookup_erase_ne hkey).trans h.selected
  have hrunning : other.connection.object ∉ t.factory.disconnected := hdisconnected ▸ h.running
  by_cases hobject : other.connection.object = adapter.connection.object
  · have haddress := address_key_ne hkey hobject
    have hhandler := h.handler
    have hoffered := h.offered
    rw [hobject] at hhandler hoffered
    refine ⟨hrunning, ?_, hselected, ?_⟩
    all_goals
      rw [hobject, hconnections, Function.update_self]
      unfold MessageHandlers.unregisterService
      split
    · exact hhandler
    · exact Finset.mem_erase.2 ⟨haddress, hhandler⟩
    · exact hoffered
    · exact Finset.mem_erase.2 ⟨fun hsame => haddress (congrArg Address.key hsame), hoffered⟩
  · refine ⟨hrunning, ?_, hselected, ?_⟩
    all_goals rw [hconnections, Function.update_of_ne hobject]
    · exact h.handler
    · exact h.offered

theorem registerService_stub (address : Address) (s : MessageHandlers.State) :
    (MessageHandlers.registerService address s).stubMessageHandler = s.stubMessageHandler := by
  unfold MessageHandlers.registerService
  split <;> rfl

theorem unregisterService_stub (address : Address) (s : MessageHandlers.State) :
    (MessageHandlers.unregisterService address s).stubMessageHandler = s.stubMessageHandler := by
  unfold MessageHandlers.unregisterService
  split <;> rfl

/-- A change of one connection leaves the handlers of the stub managers set. -/
theorem stub_update (hstub : ∀ object, (s.connections object).stubMessageHandler = true) (changed : ℕ)
    {connection : MessageHandlers.State}
    (hsame : connection.stubMessageHandler = (s.connections changed).stubMessageHandler) (object : ℕ) :
    (Function.update s.connections changed connection object).stubMessageHandler = true := by
  by_cases hobject : object = changed
  · rw [hobject, Function.update_self, hsame]
    exact hstub changed
  · rw [Function.update_of_ne hobject]
    exact hstub object

theorem Good.registerStubAdapter (h : Good translator s)
    (hok : Apart translator s (.registerStubAdapter adapter)) :
    Good translator (registerStubAdapter translator adapter s) := by
  rcases registerStubAdapter_cases translator adapter s with
    ⟨_, hsame⟩ | ⟨address, hbackward, hroom, hservices, hadapters, hdisconnected, hconnections⟩
  · rw [hsame]
    exact h
  · obtain ⟨hrunning, hkeys⟩ := hok ⟨address, hbackward, hroom⟩
    have hentry : ∀ place entry,
        (StubRouting.registerStubAdapter translator adapter s).factory.services.lookup place = some entry →
        (place = address ∧ entry = adapter) ∨ s.factory.services.lookup place = some entry := by
      intro place entry hlookup
      rw [hservices] at hlookup
      by_cases hplace : place = address
      · rw [hplace, AList.lookup_insert] at hlookup
        exact Or.inl ⟨hplace, (Option.some.inj hlookup).symm⟩
      · rw [AList.lookup_insert_ne hplace] at hlookup
        exact Or.inr hlookup
    refine ⟨fun place entry hlookup => ?_, fun object => ?_, fun place entry hlookup => ?_⟩
    · rcases hentry place entry hlookup with ⟨_, rfl⟩ | hold
      · exact .registered (h.stub _) (hdisconnected ▸ hrunning) hadapters hconnections
      · have hkey := hkeys _ (Tables.mem_of_lookup hold)
        exact (h.routed place entry hold).register hkey hdisconnected hadapters hconnections
    · rw [hconnections]
      exact stub_update h.stub _ (registerService_stub _ _) object
    · rcases hentry place entry hlookup with ⟨rfl, rfl⟩ | hold
      · exact hbackward
      · exact h.mapped place entry hold

/-- Two adapters that are both reached and have one key are the same, and so are their addresses. -/
theorem Good.key_ne (h : Good translator s) {place : CommonAPIAddress}
    (hadapter : s.factory.services.lookup address = some adapter)
    (hother : s.factory.services.lookup place = some other) (hne : place ≠ address) :
    other.key ≠ adapter.key := by
  intro hkey
  have hselected := (h.routed place other hother).selected
  have hsame : other = adapter := by
    change s.factory.registeredStubAdapters.lookup other.key = some other at hselected
    rw [hkey] at hselected
    exact Option.some.inj (hselected.symm.trans (h.routed address adapter hadapter).selected)
  subst hsame
  exact hne (Option.some.inj ((h.mapped place other hother).symm.trans (h.mapped address other hadapter)))

/-- An adapter that is left after another one was removed is still reached. -/
theorem Good.removeStub (h : Good translator s) (hadapter : s.factory.services.lookup address = some adapter) :
    Good translator (removeStub address adapter s) := by
  obtain ⟨subscription, hfactory⟩ := removeStub_factory address adapter s
  have hkey : adapter.key ∈ s.factory.registeredStubAdapters :=
    AList.lookup_isSome.1 (Option.isSome_of_eq_some (h.routed address adapter hadapter).selected)
  have hconnections : (StubRouting.removeStub address adapter s).connections =
      Function.update s.connections adapter.connection.object
        (MessageHandlers.unregisterService adapter.someipAddress
          (s.connections adapter.connection.object)) := if_pos hkey
  have hentry : ∀ place entry,
      (StubRouting.removeStub address adapter s).factory.services.lookup place = some entry →
      place ≠ address ∧ s.factory.services.lookup place = some entry := by
    intro place entry hlookup
    rw [hfactory] at hlookup
    by_cases hplace : place = address
    · rw [hplace, AList.lookup_erase] at hlookup
      cases hlookup
    · rw [AList.lookup_erase_ne hplace] at hlookup
      exact ⟨hplace, hlookup⟩
  refine ⟨fun place entry hlookup => ?_, fun object => ?_, fun place entry hlookup => ?_⟩
  · obtain ⟨hne, hold⟩ := hentry place entry hlookup
    refine (h.routed place entry hold).remove (h.key_ne hadapter hold hne) ?_ ?_ hconnections
    all_goals rw [hfactory]
  · rw [hconnections]
    exact stub_update h.stub _ (unregisterService_stub _ _) object
  · exact h.mapped place entry (hentry place entry hlookup).2

/-- What a connection has at vsomeip goes where it is disconnected. -/
theorem connections_decrement (connection : Connection) (s : State) (object : ℕ) :
    (decrementConnection connection s).connections object = s.connections object ∨
      (decrementConnection connection s).connections object = doDisconnect (s.connections object) ∧
        ∃ found ∈ disconnects connection s.factory, found.object = object := by
  unfold decrementConnection
  dsimp only
  cases hfound : disconnects connection s.factory with
  | none => exact Or.inl rfl
  | some found =>
    by_cases hobject : object = found.object
    · subst hobject
      exact Or.inr ⟨Function.update_self .., found, rfl, rfl⟩
    · exact Or.inl (Function.update_of_ne hobject _ _)

theorem Good.decrementConnection (h : Good translator s)
    (hspares : Spares connection s.factory s.factory.services) :
    Good translator (decrementConnection connection s) := by
  obtain ⟨hservices, hadapters⟩ := decrementConnection_tables connection s.factory
  refine ⟨fun place entry hlookup => ?_, fun object => ?_, fun place entry hlookup => ?_⟩
  · have hold : s.factory.services.lookup place = some entry := hservices ▸ hlookup
    have hreached := h.routed place entry hold
    have hother : ∀ found ∈ disconnects connection s.factory, entry.connection.object ≠ found.object :=
      fun found hfound => hspares found hfound _ (Tables.mem_of_lookup hold)
    have hsame : (StubRouting.decrementConnection connection s).connections entry.connection.object =
        s.connections entry.connection.object := by
      obtain hsame | ⟨_, found, hfound, heq⟩ := connections_decrement connection s entry.connection.object
      · exact hsame
      · exact absurd heq.symm (hother found hfound)
    refine ⟨fun hmem => ?_, hsame ▸ hreached.handler, ?_, hsame ▸ hreached.offered⟩
    · obtain hmem | ⟨found, hfound, heq⟩ := (mem_disconnected_decrement connection s.factory).1 hmem
      · exact hreached.running hmem
      · exact hother found hfound heq.symm
    · exact (congrArg (AList.lookup entry.key) hadapters).trans hreached.selected
  · obtain hsame | ⟨hgone, _⟩ := connections_decrement connection s object
    · exact hsame ▸ h.stub object
    · exact hgone ▸ h.stub object
  · exact h.mapped place entry (hservices ▸ hlookup)

theorem disconnects_remove (connection : Connection) (address : CommonAPIAddress) (adapter : StubAdapter)
    (s : State) : disconnects connection (removeStub address adapter s).factory =
      disconnects connection s.factory := by
  obtain ⟨subscription, hfactory⟩ := removeStub_factory address adapter s
  rw [hfactory]
  rfl

theorem services_remove (address : CommonAPIAddress) (adapter : StubAdapter) (s : State) :
    (removeStub address adapter s).factory.services = s.factory.services.erase address := by
  obtain ⟨subscription, hfactory⟩ := removeStub_factory address adapter s
  rw [hfactory]

theorem Good.unregisterStub (h : Good translator s) (hok : Apart translator s (.unregisterStub address)) :
    Good translator (unregisterStub address s) := by
  unfold StubRouting.unregisterStub
  cases hlookup : s.factory.services.lookup address with
  | none => exact h
  | some adapter =>
    refine (h.removeStub hlookup).decrementConnection ?_
    unfold Spares
    rw [disconnects_remove, services_remove]
    exact hok adapter hlookup

/-- Getting a connection and counting its users changes neither table, nor what was disconnected. -/
theorem Good.frame (h : Good translator s) (hservices : t.factory.services = s.factory.services)
    (hadapters : t.factory.registeredStubAdapters = s.factory.registeredStubAdapters)
    (hdisconnected : t.factory.disconnected = s.factory.disconnected)
    (hconnections : t.connections = s.connections) : Good translator t := by
  refine ⟨fun place entry hlookup => ?_, fun object => ?_, fun place entry hlookup => ?_⟩
  · have hreached := h.routed place entry (hservices ▸ hlookup)
    exact ⟨hdisconnected ▸ hreached.running, hconnections ▸ hreached.handler,
      (congrArg (AList.lookup entry.key) hadapters).trans hreached.selected, hconnections ▸ hreached.offered⟩
  · exact hconnections ▸ h.stub object
  · exact h.mapped place entry (hservices ▸ hlookup)

theorem Good.incrementConnection (h : Good translator s) (connection : Connection) :
    Good translator (incrementConnection connection s) := by
  unfold StubRouting.incrementConnection Factory.incrementConnection
  split <;> exact h.frame rfl rfl rfl rfl

theorem getConnection_disconnected {connectionId : ConnectionId} {application : Option ConnectionId}
    {s t : Factory.State} (hget : Factory.getConnection connectionId application s = some (connection, t)) :
    t.disconnected = s.disconnected := by
  have hincrement : ∀ connection s,
      (Factory.incrementConnection connection s).disconnected = s.disconnected := by
    intro connection s
    unfold Factory.incrementConnection
    split <;> rfl
  unfold Factory.getConnection at hget
  split at hget
  · cases hget
    exact hincrement _ _
  · obtain ⟨name, _, heq⟩ := Option.map_eq_some_iff.1 hget
    cases heq
    exact hincrement _ _

theorem Good.getConnection (h : Good translator s) (connectionId : ConnectionId)
    (application : Option ConnectionId) : Good translator (getConnection connectionId application s) := by
  unfold StubRouting.getConnection
  split
  next connection factory hget =>
    have htables := StubRegistration.tables_getConnection hget
    exact h.frame (congrArg StubRegistration.Tables.services htables)
      (congrArg StubRegistration.Tables.registeredStubAdapters htables) (getConnection_disconnected hget) rfl
  · exact h

theorem good_initial : Good translator initial := ⟨nofun, fun _ => rfl, nofun⟩

theorem step_good (a : Action) (h : Good translator s) (hok : Apart translator s a)
    (hstep : step translator s a = some t) : Good translator t := by
  cases a with
  | getConnection connectionId application =>
    cases hstep
    exact h.getConnection connectionId application
  | registerStubAdapter adapter =>
    cases hstep
    exact h.registerStubAdapter hok
  | incrementConnection connection =>
    cases hstep
    exact h.incrementConnection connection
  | unregisterStub address =>
    cases hstep
    exact h.unregisterStub hok
  | decrementConnection connection =>
    cases hstep
    exact h.decrementConnection hok

/-- An adapter that takes the place of another one, or is inserted after its connection was
    disconnected, is seen at once. -/
theorem apart_of_registered (h : Good translator s) (hrouted : Routed (registerStubAdapter translator adapter s)) :
    Apart translator s (.registerStubAdapter adapter) := by
  rintro ⟨address, hbackward, hroom⟩
  rcases registerStubAdapter_cases translator adapter s with
    ⟨hno, _⟩ | ⟨address', hbackward', hroom', hservices, hadapters, hdisconnected, _⟩
  · exact absurd (hno address hbackward) hroom
  · refine ⟨?_, ?_⟩
    · have hreached := hrouted address' adapter (by rw [hservices, AList.lookup_insert])
      exact hdisconnected ▸ hreached.running
    rintro ⟨place, entry⟩ hentry hkey
    have hold : s.factory.services.lookup place = some entry := AList.mem_lookup_iff.2 hentry
    have hne : place ≠ address' := by
      rintro rfl
      exact hroom' (AList.lookup_isSome.1 (Option.isSome_of_eq_some hold))
    have hselected := (hrouted place entry (by rw [hservices, AList.lookup_insert_ne hne, hold])).selected
    change (StubRouting.registerStubAdapter translator adapter s).factory.registeredStubAdapters.lookup
      entry.key = some entry at hselected
    change entry.key = adapter.key at hkey
    rw [hadapters, hkey, AList.lookup_insert] at hselected
    cases hselected
    exact hne (Option.some.inj ((h.mapped place _ hold).symm.trans hbackward'))

/-- An adapter whose connection is disconnected is seen at once. -/
theorem spares_of_routed (connection : Connection) (s : State)
    (hrouted : Routed (decrementConnection connection s)) :
    Spares connection s.factory s.factory.services := by
  rintro found hfound ⟨place, entry⟩ hentry heq
  obtain ⟨hservices, _⟩ := decrementConnection_tables connection s.factory
  have hreached := hrouted place entry (hservices.symm ▸ AList.mem_lookup_iff.2 hentry)
  exact hreached.running
    ((mem_disconnected_decrement connection s.factory).2 (Or.inr ⟨found, hfound, heq.symm⟩))

theorem apart_of_routed (a : Action) (h : Good translator s) (hstep : step translator s a = some t)
    (hrouted : Routed t) : Apart translator s a := by
  cases a with
  | getConnection connectionId application => trivial
  | registerStubAdapter adapter =>
    cases hstep
    exact apart_of_registered h hrouted
  | incrementConnection connection => trivial
  | unregisterStub address =>
    cases hstep
    intro adapter hlookup
    have hlookup : s.factory.services.lookup address = some adapter := hlookup
    have hsame : unregisterStub address s =
        decrementConnection adapter.connection (removeStub address adapter s) := by
      unfold unregisterStub
      rw [hlookup]
    rw [hsame] at hrouted
    have hspares := spares_of_routed adapter.connection (removeStub address adapter s) hrouted
    unfold Spares at hspares
    rw [disconnects_remove, services_remove] at hspares
    exact hspares
  | decrementConnection connection =>
    cases hstep
    exact spares_of_routed connection s hrouted

theorem run_total (translator : AddressTranslator) (as : List Action) (s : State) :
    ∃ t, run (step translator) s as = some t := by
  induction as generalizing s with
  | nil => exact ⟨s, rfl⟩
  | cons a as ih => cases a <;> exact ih _

/-- Along a run, every adapter in `services` is reached just if none is inserted on a disconnected
    connection or where another one there has the same service and instance, and no connection loses its
    last user while an adapter uses it. -/
theorem requests_routed_iff (translator : AddressTranslator) (as : List Action) :
    Along (step translator) Routed initial as ↔ Meets (step translator) (Apart translator) initial as := by
  rcases run_total translator as initial with ⟨t, hrun⟩
  exact along_iff_meets hrun good_initial (fun _ hs => hs.routed)
    (fun _ a _ hs hok hstep => step_good a hs hok hstep)
    (fun _ a _ hs hstep hrouted => apart_of_routed a hs hstep hrouted)

theorem spares_of_good {s : Factory.State} (h : ConnectionReferences.Good s)
    (hlookup : s.services.lookup address = some adapter) :
    Spares adapter.connection s (s.services.erase address) := by
  rintro found hfound entry hentry hobject
  obtain ⟨hsome, hlast⟩ := Option.filter_eq_some_iff.1 hfound
  have hperm := ConnectionReferences.holders_erase hlookup
  have hleft : entry.2.connection ∈ s.proxies ++
      (s.services.erase address).entries.map fun entry => entry.2.connection :=
    List.mem_append_right _ (List.mem_map_of_mem hentry)
  have halive : Alive s adapter.connection := h.held _ (hperm.mem_iff.2 List.mem_cons_self)
  have hfound : found = adapter.connection := Option.some.inj (hsome.symm.trans halive)
  subst hfound
  have hsame : entry.2.connection = adapter.connection :=
    h.different _ _ (h.held _ (hperm.mem_iff.2 (List.mem_cons_of_mem _ hleft))) halive hobject
  have hcount := h.counted adapter.connection halive
  rw [hperm.count_eq, List.count_cons_self] at hcount
  have hpos : 0 < List.count adapter.connection (s.proxies ++
      (s.services.erase address).entries.map fun entry => entry.2.connection) :=
    List.count_pos_iff.2 (hsame ▸ hleft)
  have hzero : (s.activeConnections adapter.connection.object - 1).toNat = 0 :=
    congrArg BitVec.toNat (of_decide_eq_true hlast)
  rw [toNat_decrement (by omega)] at hzero
  omega

/-- In runs that count every user of a connection, unregistering a stub spares the others. -/
theorem counted_spares {proxies stubs : List String} {s : Factory.State}
    (h : Reachable (ConnectionReferences.step translator proxies stubs)
      (ConnectionReferences.Ordered translator proxies stubs) Factory.initial s)
    (hlookup : s.services.lookup address = some adapter) :
    Spares adapter.connection s (s.services.erase address) :=
  spares_of_good (h.invariant held_initial fun _ _ _ => ConnectionReferences.step_good) hlookup

end Invariant

def twoMajors : AddressTranslator where
  forward address :=
    if address = ⟨"local", "I:v1_0", "i"⟩ then some ⟨1, 1, 1, 0⟩
    else if address = ⟨"local", "I:v2_0", "i"⟩ then some ⟨1, 1, 2, 0⟩
    else if address = ⟨"local", "J:v1_0", "i"⟩ then some ⟨2, 1, 1, 0⟩
    else none
  backward address :=
    if address = ⟨1, 1, 1, 0⟩ then some ⟨"local", "I:v1_0", "i"⟩
    else if address = ⟨1, 1, 2, 0⟩ then some ⟨"local", "I:v2_0", "i"⟩
    else if address = ⟨2, 1, 1, 0⟩ then some ⟨"local", "J:v1_0", "i"⟩
    else none

/-- The stub of the second major version takes the place of the other one. -/
theorem second_major_takes_over : ¬ ∀ translator as, Along (step translator) Routed initial as := by
  intro h
  have halong := h twoMajors
    [.getConnection "c" (some "c"),
      .registerStubAdapter ⟨0, ⟨1, 1, 1, 0⟩, ⟨"local", "I:v1_0", "i"⟩, ⟨0, "c"⟩, []⟩,
      .getConnection "c" none,
      .registerStubAdapter ⟨1, ⟨1, 1, 2, 0⟩, ⟨"local", "I:v2_0", "i"⟩, ⟨0, "c"⟩, []⟩]
  have hselected := ((halong.2 _ rfl).2 _ rfl |>.2 _ rfl |>.2 _ rfl ⟨"local", "I:v1_0", "i"⟩ _ rfl).selected
  revert hselected
  decide

/-- Before a managed adapter is counted, the other stub is unregistered. -/
example : ¬ Meets (step twoMajors) (Apart twoMajors) initial
    [.getConnection "c" (some "c"),
      .registerStubAdapter ⟨0, ⟨1, 1, 1, 0⟩, ⟨"local", "I:v1_0", "i"⟩, ⟨0, "c"⟩, []⟩,
      .registerStubAdapter ⟨1, ⟨2, 1, 1, 0⟩, ⟨"local", "J:v1_0", "i"⟩, ⟨0, "c"⟩, []⟩,
      .unregisterStub ⟨"local", "I:v1_0", "i"⟩] := by decide

end SomeIPRuntime.StubRouting
