import SomeIPRuntime.ConnectionCounters
import SomeIPRuntime.StepSystems
import SomeIPRuntime.Tables

set_option autoImplicit false

namespace SomeIPRuntime.ConnectionReferences
open Factory StepSystems

inductive Action
  | createProxy (overload : Overload) (domain interface instance_ : String)
      (application : Option ConnectionId) (proxy : Bool)
  | destroyProxy (connection : Connection)
  | registerStub (overload : Overload) (domain interface instance_ : String)
      (application : Option ConnectionId) (eventgroups : Option (List EventgroupId))
  | unregisterStub (address : CommonAPIAddress)
  | registerManagedService (adapter : StubAdapter)
  | unregisterManagedService (address : CommonAPIAddress)

/-- The live proxies and the adapters in `services` that use a connection. -/
def references (s : State) (object : ℕ) : ℕ :=
  s.proxies.countP (·.object = object) + s.services.entries.countP (·.2.connection.object = object)

/-- Of the connections that were made, those without references are disconnected and erased, and the
    others count their references. -/
structure Balanced (s : State) : Prop where
  counted : ∀ connectionId connection, s.connections.lookup connectionId = some connection →
    (s.activeConnections connection.object).toNat = references s connection.object
  neverBelow : s.belowZero = false
  disconnected : ∀ object < s.created, object ∈ s.disconnected ↔ references s object = 0
  erased : ∀ object < s.created, references s object = 0 ↔
    ∀ connectionId connection, s.connections.lookup connectionId = some connection →
      connection.object ≠ object

section Steps
variable (translator : AddressTranslator) (proxies stubs : List String)

def step (s : State) : Action → Option State
  | .createProxy overload domain interface instance_ application proxy =>
    some (createProxy translator proxies overload domain interface instance_ application proxy s).2
  | .destroyProxy connection => if connection ∈ s.proxies then some (destroyProxy connection s) else none
  | .registerStub overload domain interface instance_ application eventgroups =>
    some (registerStub translator stubs overload domain interface instance_ application eventgroups s).2
  | .unregisterStub address => some ((unregisterStub address s).getD s)
  | .registerManagedService adapter => some (registerManagedService translator adapter s).2
  | .unregisterManagedService address => some (unregisterManagedService address s).2

def Obtainable (s : State) (connectionId : ConnectionId) (application : Option ConnectionId) : Prop :=
  connectionId ∈ s.connections ∨ application.isSome

def HasRoom (s : State) (someipAddress : Address) : Prop :=
  ∃ address ∈ translator.backward someipAddress, address ∉ s.services

/-- A call that gets a connection comes to its end, and a managed service has the connection that
    its name stands for. -/
def Ordered (s : State) : Action → Prop
  | .createProxy overload domain interface instance_ application proxy =>
    ∀ itsInterface ∈ findCreateFunction proxies interface,
      (translator.forward ⟨domain, itsInterface, instance_⟩).isSome →
        Obtainable s overload.connection application →
          Countable s overload.connection application ∧ proxy = true
  | .registerStub overload domain interface instance_ application eventgroups =>
    ∀ itsInterface ∈ findCreateFunction stubs interface, ⟨domain, itsInterface, instance_⟩ ∉ s.services →
      ∀ someipAddress ∈ stubAddress translator overload ⟨domain, itsInterface, instance_⟩,
        Obtainable s overload.connection application →
          Countable s overload.connection application ∧ eventgroups.isSome ∧
            HasRoom translator s someipAddress
  | .registerManagedService adapter =>
    HasRoom translator s adapter.someipAddress → Alive s adapter.connection ∧
      s.activeConnections adapter.connection.object ≠ BitVec.allOnes 32
  | .destroyProxy _ | .unregisterStub _ | .unregisterManagedService _ => True

instance (s : State) (connectionId : ConnectionId) (application : Option ConnectionId) :
    Decidable (Obtainable s connectionId application) := inferInstanceAs (Decidable (_ ∨ _))

instance (s : State) (someipAddress : Address) : Decidable (HasRoom translator s someipAddress) :=
  inferInstanceAs (Decidable (∃ address ∈ translator.backward someipAddress, address ∉ s.services))

instance (s : State) : (a : Action) → Decidable (Ordered translator proxies stubs s a)
  | .createProxy overload domain interface instance_ application proxy =>
    inferInstanceAs (Decidable (∀ itsInterface ∈ findCreateFunction proxies interface,
      (translator.forward ⟨domain, itsInterface, instance_⟩).isSome →
        Obtainable s overload.connection application →
          Countable s overload.connection application ∧ proxy = true))
  | .registerStub overload domain interface instance_ application eventgroups =>
    inferInstanceAs (Decidable (∀ itsInterface ∈ findCreateFunction stubs interface,
      ⟨domain, itsInterface, instance_⟩ ∉ s.services →
        ∀ someipAddress ∈ stubAddress translator overload ⟨domain, itsInterface, instance_⟩,
          Obtainable s overload.connection application →
            Countable s overload.connection application ∧ eventgroups.isSome ∧
              HasRoom translator s someipAddress))
  | .registerManagedService adapter =>
    inferInstanceAs (Decidable (HasRoom translator s adapter.someipAddress →
      Alive s adapter.connection ∧ s.activeConnections adapter.connection.object ≠ BitVec.allOnes 32))
  | .destroyProxy _ | .unregisterStub _ | .unregisterManagedService _ => .isTrue trivial

end Steps

section Invariant
variable {translator : AddressTranslator} {proxies stubs : List String} {s t : State}
  {connection : Connection}

def holders (s : State) : List Connection :=
  s.proxies ++ s.services.entries.map fun entry => entry.2.connection

def Good (s : State) : Prop := Held s (holders s)

theorem count_holders (h : Good s) (halive : Alive s connection) :
    (holders s).count connection = references s connection.object := by
  have hcount : (holders s).count connection = (holders s).countP (·.object = connection.object) := by
    refine List.countP_congr fun other hmem => ?_
    rw [beq_iff_eq, decide_eq_true_eq]
    exact ⟨congrArg Connection.object, h.different other connection (h.held other hmem) halive⟩
  rw [hcount]
  unfold holders references
  rw [List.countP_append, List.countP_map]
  rfl

theorem references_zero {object : ℕ} :
    references s object = 0 ↔ ∀ connection ∈ holders s, connection.object ≠ object := by
  unfold references holders
  rw [Nat.add_eq_zero_iff, List.countP_eq_zero, List.countP_eq_zero]
  simp only [decide_eq_true_eq, List.mem_append, List.mem_map, or_imp, forall_and,
    forall_exists_index, and_imp, forall_apply_eq_imp_iff₂]

theorem incrementConnection_holders (connection : Connection) (s : State) :
    (incrementConnection connection s).proxies = s.proxies ∧
      (incrementConnection connection s).services = s.services := by
  unfold incrementConnection
  split <;> exact ⟨rfl, rfl⟩

theorem decrementConnection_holders (connection : Connection) (s : State) :
    (decrementConnection connection s).proxies = s.proxies ∧
      (decrementConnection connection s).services = s.services := by
  unfold decrementConnection
  split
  · dsimp only
    split <;> exact ⟨rfl, rfl⟩
  · exact ⟨rfl, rfl⟩

theorem getConnection_holders {connectionId : ConnectionId} {application : Option ConnectionId}
    (h : getConnection connectionId application s = some (connection, t)) :
    t.proxies = s.proxies ∧ t.services = s.services := by
  unfold getConnection at h
  split at h
  · cases h
    exact incrementConnection_holders _ _
  · obtain ⟨name, _, heq⟩ := Option.map_eq_some_iff.1 h
    cases heq
    exact incrementConnection_holders _ _

theorem obtainable_of_getConnection {connectionId : ConnectionId} {application : Option ConnectionId}
    (h : getConnection connectionId application s = some (connection, t)) :
    Obtainable s connectionId application := by
  unfold getConnection at h
  split at h
  next found hlookup => exact .inl (AList.lookup_isSome.1 (Option.isSome_of_eq_some hlookup))
  · obtain ⟨name, hname, _⟩ := Option.map_eq_some_iff.1 h
    exact .inr (Option.isSome_of_eq_some hname)

theorem Good.balanced (h : Good s) : Balanced s := by
  have hnamed : ∀ connectionId connection,
      s.connections.lookup connectionId = some connection → Alive s connection := by
    intro connectionId connection hlookup
    unfold Alive
    rwa [h.named connectionId connection hlookup]
  have herased : ∀ object, references s object = 0 ↔
      ∀ connectionId connection, s.connections.lookup connectionId = some connection →
        connection.object ≠ object := by
    intro object
    rw [references_zero]
    exact ⟨fun hnone id connection hlookup => hnone connection (h.used connection (hnamed id connection hlookup)),
      fun hnone connection hmem => hnone _ connection (h.held connection hmem)⟩
  refine ⟨fun id connection hlookup => ?_, h.neverBelow, fun object hobject => ?_, fun object _ => herased object⟩
  · have halive := hnamed id connection hlookup
    rw [h.counted connection halive, count_holders h halive]
  · rw [h.disconnected object hobject, herased object]
    exact ⟨fun hnone id connection hlookup => hnone connection (hnamed id connection hlookup),
      fun hnone connection => hnone _ connection⟩

theorem holders_eq (hproxies : t.proxies = s.proxies) (hservices : t.services = s.services) :
    holders t = holders s := by
  unfold holders
  rw [hproxies, hservices]

theorem foldl_subscription {f : State → EventgroupId → State}
    (hf : ∀ s eventgroup, ∃ subscription, f s eventgroup = { s with subscription := subscription })
    (eventgroups : List EventgroupId) (s : State) :
    ∃ subscription, eventgroups.foldl f s = { s with subscription := subscription } := by
  induction eventgroups generalizing s with
  | nil => exact ⟨s.subscription, rfl⟩
  | cons eventgroup rest ih =>
    obtain ⟨first, hfirst⟩ := hf s eventgroup
    obtain ⟨subscription, hrest⟩ := ih (f s eventgroup)
    refine ⟨subscription, ?_⟩
    rw [List.foldl_cons, hrest, hfirst]

theorem registerSelectiveEventHandlers_eq (adapter : StubAdapter) (s : State) :
    ∃ subscription,
      registerSelectiveEventHandlers adapter s = { s with subscription := subscription } :=
  foldl_subscription (fun _ _ => ⟨_, rfl⟩) adapter.eventgroups s

theorem unregisterSelectiveEventHandlers_eq (adapter : StubAdapter) (s : State) :
    ∃ subscription,
      unregisterSelectiveEventHandlers adapter s = { s with subscription := subscription } :=
  foldl_subscription (fun _ _ => ⟨_, rfl⟩) adapter.eventgroups s

/-- What registering an adapter does where there is room for it. -/
theorem registerStubAdapter_some {adapter : StubAdapter}
    (hregister : registerStubAdapter translator adapter s = some t) :
    ∃ address, translator.backward adapter.someipAddress = some address ∧ address ∉ s.services ∧
      t = { s with
        services := s.services.insert address adapter
        registeredStubAdapters := s.registeredStubAdapters.insert adapter.key adapter } := by
  obtain ⟨address, hbackward, hinsert⟩ := Option.bind_eq_some_iff.1 hregister
  split at hinsert
  · cases hinsert
  next hnotMem =>
    cases hinsert
    exact ⟨address, hbackward, hnotMem, rfl⟩

theorem registerStubAdapter_room {adapter : StubAdapter}
    (hregister : registerStubAdapter translator adapter s = some t) :
    t.connections = s.connections ∧ t.activeConnections = s.activeConnections ∧
      HasRoom translator s adapter.someipAddress := by
  obtain ⟨address, hbackward, hnotMem, rfl⟩ := registerStubAdapter_some hregister
  exact ⟨rfl, rfl, address, hbackward, hnotMem⟩

theorem registerStubAdapter_held {adapter : StubAdapter} {others : List Connection}
    (hregister : registerStubAdapter translator adapter s = some t) (hheld : Held s others) :
    Held t others := by
  obtain ⟨address, _, _, rfl⟩ := registerStubAdapter_some hregister
  exact hheld.frame rfl rfl rfl rfl rfl

theorem registerStubAdapter_holders {adapter : StubAdapter}
    (hregister : registerStubAdapter translator adapter s = some t) :
    (holders t).Perm (adapter.connection :: holders s) := by
  obtain ⟨address, _, hnotMem, rfl⟩ := registerStubAdapter_some hregister
  unfold holders
  dsimp only
  rw [AList.entries_insert_of_notMem hnotMem]
  exact List.perm_middle

theorem registerStubAdapter_inserts (adapter : StubAdapter)
    (hroom : HasRoom translator s adapter.someipAddress) :
    ∃ t, registerStubAdapter translator adapter s = some t := by
  obtain ⟨address, hbackward, hnotMem⟩ := hroom
  have hsome : translator.backward adapter.someipAddress = some address := hbackward
  unfold registerStubAdapter
  rw [hsome, Option.bind_some, if_neg hnotMem]
  exact ⟨_, rfl⟩

theorem holders_erase {address : CommonAPIAddress} {adapter : StubAdapter}
    (hlookup : s.services.lookup address = some adapter) :
    (holders s).Perm (adapter.connection :: (s.proxies ++
      (s.services.erase address).entries.map fun entry => entry.2.connection)) := by
  have hperm := (Tables.perm_cons_erase hlookup).map fun entry => entry.2.connection
  exact (hperm.append_left s.proxies).trans List.perm_middle

theorem Good.unregisterStub {address : CommonAPIAddress} (h : Good s)
    (hunregister : unregisterStub address s = some t) : Good t := by
  obtain ⟨adapter, hlookup, heq⟩ := Option.map_eq_some_iff.1 hunregister
  obtain ⟨subscription, hsubscription⟩ := unregisterSelectiveEventHandlers_eq adapter s
  rw [hsubscription] at heq
  rw [← heq]
  have hheld := (Held.perm h (holders_erase hlookup)).frame
    (t := { s with
      subscription := subscription
      registeredStubAdapters := s.registeredStubAdapters.erase adapter.key
      services := s.services.erase address }) rfl rfl rfl rfl rfl
  obtain ⟨hproxies, hservices⟩ := decrementConnection_holders adapter.connection _
  unfold Good
  rw [holders_eq hproxies hservices]
  exact hheld.decrement

theorem Good.createProxy (h : Good s) {overload : Overload} {domain interface instance_ : String}
    {application : Option ConnectionId} {proxy : Bool}
    (hok : Ordered translator proxies stubs s
      (.createProxy overload domain interface instance_ application proxy)) :
    Good (createProxy translator proxies overload domain interface instance_ application proxy s).2 := by
  unfold Factory.createProxy
  split
  · exact h
  next itsInterface hinterface =>
    split
    · exact h
    next someipAddress haddress =>
      split
      · exact h
      next connection t hget =>
        obtain ⟨hcountable, hproxy⟩ := hok itsInterface hinterface (Option.isSome_of_eq_some haddress)
          (obtainable_of_getConnection hget)
        obtain ⟨hproxies, hservices⟩ := getConnection_holders hget
        rw [if_pos hproxy]
        have hheld := Held.getConnection h hcountable hget
        rw [← holders_eq hproxies hservices] at hheld
        exact hheld.frame rfl rfl rfl rfl rfl

theorem Good.destroyProxy (h : Good s) (hmem : connection ∈ s.proxies) :
    Good (destroyProxy connection s) := by
  have hperm : (holders s).Perm (connection :: (s.proxies.erase connection ++
      s.services.entries.map fun entry => entry.2.connection)) :=
    (List.perm_cons_erase hmem).append_right _
  have hheld := (Held.perm h hperm).frame (t := { s with proxies := s.proxies.erase connection })
    rfl rfl rfl rfl rfl
  obtain ⟨hproxies, hservices⟩ :=
    decrementConnection_holders connection { s with proxies := s.proxies.erase connection }
  unfold Good Factory.destroyProxy
  rw [holders_eq hproxies hservices]
  exact hheld.decrement

theorem Good.registerStub (h : Good s) {overload : Overload} {domain interface instance_ : String}
    {application : Option ConnectionId} {eventgroups : Option (List EventgroupId)}
    (hok : Ordered translator proxies stubs s
      (.registerStub overload domain interface instance_ application eventgroups)) :
    Good (registerStub translator stubs overload domain interface instance_ application eventgroups s).2 := by
  unfold Factory.registerStub
  split
  · exact h
  next itsInterface hinterface =>
    split
    · exact h
    next hnotMem =>
      split
      · exact h
      next someipAddress haddress =>
        split
        · exact h
        next connection t hget =>
          obtain ⟨hcountable, hadapter, address, hbackward, hroom⟩ :=
            hok itsInterface hinterface hnotMem someipAddress haddress (obtainable_of_getConnection hget)
          obtain ⟨hproxies, hservices⟩ := getConnection_holders hget
          have hheld := Held.getConnection h hcountable hget
          rw [← holders_eq hproxies hservices] at hheld
          obtain ⟨eventgroups, rfl⟩ := Option.isSome_iff_exists.1 hadapter
          dsimp only
          obtain ⟨subscription, hsubscription⟩ := registerSelectiveEventHandlers_eq
            ⟨t.adapters, someipAddress, noAddress, connection, eventgroups⟩
            { t with adapters := t.adapters + 1 }
          rw [hsubscription]
          dsimp only
          have hroom' : HasRoom translator
              { t with adapters := t.adapters + 1, subscription := subscription } someipAddress :=
            ⟨address, hbackward, hservices ▸ hroom⟩
          obtain ⟨u, hregister⟩ := registerStubAdapter_inserts
            (StubAdapter.init translator
              ⟨t.adapters, someipAddress, noAddress, connection, eventgroups⟩) hroom'
          rw [hregister]
          exact (registerStubAdapter_held hregister (hheld.frame rfl rfl rfl rfl rfl)).perm
            (registerStubAdapter_holders hregister).symm

theorem Good.registerManagedService (h : Good s) {adapter : StubAdapter}
    (hok : Ordered translator proxies stubs s (.registerManagedService adapter)) :
    Good (registerManagedService translator adapter s).2 := by
  unfold Factory.registerManagedService
  split
  next t hregister =>
    obtain ⟨hconnections, hactive, hroom⟩ := registerStubAdapter_room hregister
    obtain ⟨halive, hmax⟩ := hok hroom
    obtain ⟨hproxies, hservices⟩ := incrementConnection_holders adapter.connection t
    unfold Good
    dsimp only
    rw [holders_eq hproxies hservices]
    refine ((registerStubAdapter_held hregister h).increment ?_ ?_).perm
      (registerStubAdapter_holders hregister).symm
    · unfold Alive
      rw [hconnections]
      exact halive
    · rw [hactive]
      exact hmax
  · exact h

theorem step_good {a : Action} (h : Good s) (hok : Ordered translator proxies stubs s a)
    (hstep : step translator proxies stubs s a = some t) : Good t := by
  cases a with
  | createProxy overload domain interface instance_ application proxy =>
    cases hstep
    exact h.createProxy hok
  | destroyProxy connection =>
    change (if connection ∈ s.proxies then _ else _) = _ at hstep
    split at hstep
    next hmem =>
      cases hstep
      exact h.destroyProxy hmem
    · cases hstep
  | registerStub overload domain interface instance_ application eventgroups =>
    cases hstep
    exact h.registerStub hok
  | unregisterStub address =>
    cases hstep
    cases hunregister : Factory.unregisterStub address s with
    | none => exact h
    | some t => exact h.unregisterStub hunregister
  | registerManagedService adapter =>
    cases hstep
    exact h.registerManagedService hok
  | unregisterManagedService address =>
    cases hstep
    unfold unregisterManagedService
    cases hunregister : Factory.unregisterStub address s with
    | none => exact h
    | some t => exact h.unregisterStub hunregister

/-- In every run of ordered calls the references are balanced. -/
theorem references_balanced
    (h : Reachable (step translator proxies stubs) (Ordered translator proxies stubs) initial s) :
    Balanced s :=
  (h.invariant held_initial fun _ _ _ => step_good).balanced

end Invariant

def byInstance : AddressTranslator where
  forward address :=
    if address = ⟨"local", "I", "i"⟩ then some ⟨1, 1, 1, 0⟩
    else if address = ⟨"local", "I", "j"⟩ then some ⟨1, 2, 1, 0⟩
    else none
  backward address :=
    if address = ⟨1, 1, 1, 0⟩ then some ⟨"local", "I", "i"⟩
    else if address = ⟨1, 2, 1, 0⟩ then some ⟨"local", "I", "j"⟩
    else none

/-- A connection with a proxy, a stub and a managed service, which is there anew after all of them
    have gone. -/
def comingAndGoing : List Action :=
  [.createProxy (.connectionId "c") "local" "I" "i" (some "c") true,
    .registerStub (.mainLoopContext (some "c")) "local" "I" "i" none (some [5]),
    .registerStub (.connectionId "c") "local" "I" "i" none (some [5]),
    .registerManagedService ⟨7, ⟨1, 2, 1, 0⟩, ⟨"local", "I", "j"⟩, ⟨0, "c"⟩, []⟩,
    .createProxy (.connectionId "d") "local" "I" "i" none true,
    .unregisterStub ⟨"local", "I", "i"⟩, .destroyProxy ⟨0, "c"⟩,
    .unregisterManagedService ⟨"local", "I", "j"⟩,
    .createProxy (.connectionId "c") "local" "I" "j" (some "c") true]

theorem coming_and_going_balanced :
    ∃ s, run (step byInstance ["I"] ["I"]) initial comingAndGoing = some s ∧
      s.proxies = [⟨1, "c"⟩] ∧ s.disconnected = {0} ∧ Balanced s := by
  have hrun : ∃ s, run (step byInstance ["I"] ["I"]) initial comingAndGoing = some s ∧
      s.proxies = [⟨1, "c"⟩] ∧ s.disconnected = {0} := ⟨_, rfl, by decide, by decide⟩
  obtain ⟨s, hs, hproxies, hdisconnected⟩ := hrun
  exact ⟨s, hs, hproxies, hdisconnected, references_balanced (.of_run comingAndGoing (by decide) hs)⟩

theorem failed_proxy_referenced :
    ¬ ∀ (translator : AddressTranslator) (proxies stubs : List String) (s : State),
      Reachable (step translator proxies stubs) Free initial s → Balanced s := by
  intro h
  obtain ⟨s, hrun, hlookup, hactive, hnone⟩ : ∃ s, run (step byInstance ["I"] ["I"]) initial
      [.createProxy (.connectionId "c") "local" "I" "i" (some "c") false] = some s ∧
      s.connections.lookup "c" = some ⟨0, "c"⟩ ∧ s.activeConnections 0 = 1 ∧ references s 0 = 0 :=
    ⟨_, rfl, by decide, by decide, by decide⟩
  have hcounted := (h byInstance _ _ s (reachable_of_run hrun)).counted "c" _ hlookup
  rw [hactive, hnone] at hcounted
  exact absurd hcounted (by decide)

end SomeIPRuntime.ConnectionReferences
