import SomeIPRuntime.ConnectionReferences
import SomeIPRuntime.StubRegistration

set_option autoImplicit false

namespace SomeIPRuntime.StubUnregistration
open Factory StepSystems StubRegistration

def isRegisteredService (address : CommonAPIAddress) (s : Factory.State) : Bool :=
  address ∈ s.services

/-- Behind a registration the address is registered, and unregistering it takes the registration
    back. -/
structure Undone (before after : Factory.State) (address : CommonAPIAddress) : Prop where
  registered : isRegisteredService address after = true
  undone : ∃ s, unregisterStub address after = some s ∧ s.services = before.services ∧
    s.registeredStubAdapters = before.registeredStubAdapters

section Registration
variable (translator : AddressTranslator) (functions : List String)

/-- The SOME/IP address of the stub is mapped back to the address that it is registered with, and its
    connection has no stub for this service and instance yet. -/
def Named (overload : Overload) (domain interface instance_ : String)
    (application : Option ConnectionId) (s : Factory.State) : Prop :=
  ∀ itsInterface ∈ findCreateFunction functions interface,
    ∀ someipAddress ∈ stubAddress translator overload ⟨domain, itsInterface, instance_⟩,
      translator.backward someipAddress = some ⟨domain, interface, instance_⟩ ∧
        ∀ result ∈ getConnection overload.connection application s,
          (result.1.object, someipAddress.service, someipAddress.instance_) ∉ s.registeredStubAdapters

instance (overload : Overload) (domain interface instance_ : String)
    (application : Option ConnectionId) (s : Factory.State) :
    Decidable (Named translator functions overload domain interface instance_ application s) := by
  unfold Named
  infer_instance

end Registration

section Tables
variable {translator : AddressTranslator} {functions : List String} {s t : Factory.State}

theorem tables_decrementConnection (connection : Connection) (s : Factory.State) :
    tables (decrementConnection connection s) = tables s := by
  unfold decrementConnection
  split
  · dsimp only
    split <;> rfl
  · rfl

theorem unregisterStub_tables {address : CommonAPIAddress} {adapter : StubAdapter}
    (h : s.services.lookup address = some adapter) :
    ∃ t, unregisterStub address s = some t ∧ t.services = s.services.erase address ∧
      t.registeredStubAdapters = s.registeredStubAdapters.erase adapter.key := by
  rcases ConnectionReferences.unregisterSelectiveEventHandlers_eq adapter s with
    ⟨subscription, hsubscription⟩
  have htables := tables_decrementConnection adapter.connection
    { s with
      subscription := subscription
      registeredStubAdapters := s.registeredStubAdapters.erase adapter.key
      services := s.services.erase address }
  refine ⟨_, ?_, congrArg Tables.services htables, congrArg Tables.registeredStubAdapters htables⟩
  unfold unregisterStub
  rw [h, Option.map_some, hsubscription]

structure Registered (translator : AddressTranslator) (functions : List String) (overload : Overload)
    (domain interface instance_ : String) (application : Option ConnectionId) (s t : Factory.State)
    (itsInterface : String) (address : CommonAPIAddress) (adapter : StubAdapter) : Prop where
  interface : findCreateFunction functions interface = some itsInterface
  someipAddress : stubAddress translator overload ⟨domain, itsInterface, instance_⟩ =
    some adapter.someipAddress
  connection : ∃ u, getConnection overload.connection application s = some (adapter.connection, u)
  backward : translator.backward adapter.someipAddress = some address
  room : address ∉ s.services
  services : t.services = s.services.insert address adapter
  registeredStubAdapters :
    t.registeredStubAdapters = s.registeredStubAdapters.insert adapter.key adapter

theorem registerStub_cases {overload : Overload} {domain interface instance_ : String}
    {application : Option ConnectionId} {eventgroups : Option (List EventgroupId)}
    (h : registerStub translator functions overload domain interface instance_ application eventgroups s =
      (true, t)) :
    ∃ itsInterface someipAddress connection u eventgroups subscription,
      findCreateFunction functions interface = some itsInterface ∧
      stubAddress translator overload ⟨domain, itsInterface, instance_⟩ = some someipAddress ∧
      getConnection overload.connection application s = some (connection, u) ∧
      registerStubAdapter translator
        (StubAdapter.init translator ⟨u.adapters, someipAddress, noAddress, connection, eventgroups⟩)
        { u with adapters := u.adapters + 1, subscription := subscription } = some t := by
  unfold registerStub at h
  cases hinterface : findCreateFunction functions interface with
  | none =>
    rw [hinterface] at h
    cases h
  | some itsInterface =>
    rw [hinterface] at h
    dsimp only at h
    split at h
    · cases h
    cases haddress : stubAddress translator overload ⟨domain, itsInterface, instance_⟩ with
    | none =>
      rw [haddress] at h
      cases h
    | some someipAddress =>
      rw [haddress] at h
      cases hget : getConnection overload.connection application s with
      | none =>
        rw [hget] at h
        cases h
      | some result =>
        rcases result with ⟨connection, u⟩
        rw [hget] at h
        cases eventgroups with
        | none => cases h
        | some eventgroups =>
          rcases ConnectionReferences.registerSelectiveEventHandlers_eq
            ⟨u.adapters, someipAddress, noAddress, connection, eventgroups⟩
            { u with adapters := u.adapters + 1 } with ⟨subscription, hsubscription⟩
          dsimp only at h
          rw [hsubscription] at h
          refine ⟨itsInterface, someipAddress, connection, u, eventgroups, subscription,
            rfl, haddress, rfl, ?_⟩
          split at h
          next v hregister =>
            cases h
            exact hregister
          · cases h

theorem registerStub_registered {overload : Overload} {domain interface instance_ : String}
    {application : Option ConnectionId} {eventgroups : Option (List EventgroupId)}
    (h : registerStub translator functions overload domain interface instance_ application eventgroups s =
      (true, t)) :
    ∃ itsInterface address adapter, Registered translator functions overload domain interface instance_
      application s t itsInterface address adapter := by
  rcases registerStub_cases h with ⟨itsInterface, someipAddress, connection, u, eventgroups, subscription,
    hinterface, haddress, hget, hregister⟩
  have hsame := tables_getConnection hget
  have hservices : u.services = s.services := congrArg Tables.services hsame
  have hadapters : u.registeredStubAdapters = s.registeredStubAdapters :=
    congrArg Tables.registeredStubAdapters hsame
  rcases ConnectionReferences.registerStubAdapter_some hregister with ⟨address, hbackward, hroom, rfl⟩
  refine ⟨itsInterface, address, _, hinterface, haddress, ⟨u, hget⟩, hbackward, hservices ▸ hroom, ?_, ?_⟩
  · rw [← hservices]
  · rw [← hadapters]

theorem Registered.named_iff {overload : Overload} {domain interface instance_ itsInterface : String}
    {application : Option ConnectionId} {address : CommonAPIAddress} {adapter : StubAdapter}
    (h : Registered translator functions overload domain interface instance_ application s t itsInterface
      address adapter) :
    Named translator functions overload domain interface instance_ application s ↔
      address = ⟨domain, interface, instance_⟩ ∧ adapter.key ∉ s.registeredStubAdapters := by
  rcases h.connection with ⟨u, hget⟩
  unfold Named
  rw [h.interface]
  constructor
  · intro hnamed
    rcases hnamed _ rfl _ h.someipAddress with ⟨hbackward, hfree⟩
    exact ⟨Option.some.inj (h.backward.symm.trans hbackward), hfree _ hget⟩
  · rintro ⟨rfl, hfree⟩ _ hinterface someipAddress haddress
    cases hinterface
    cases h.someipAddress.symm.trans haddress
    refine ⟨h.backward, fun result hresult => ?_⟩
    cases hget.symm.trans hresult
    exact hfree

/-- A stub that was registered is unregistered by the same arguments just if its SOME/IP address is
    mapped back to them and its connection had no stub for its service and instance. -/
theorem unregisterStub_undoes_iff {overload : Overload} {domain interface instance_ : String}
    {application : Option ConnectionId} {eventgroups : Option (List EventgroupId)}
    (hregister : registerStub translator functions overload domain interface instance_ application
      eventgroups s = (true, t)) :
    Undone s t ⟨domain, interface, instance_⟩ ↔
      Named translator functions overload domain interface instance_ application s := by
  rcases registerStub_registered hregister with ⟨itsInterface, address, adapter, h⟩
  rw [h.named_iff]
  constructor
  · intro hundone
    rcases hundone.undone with ⟨u, hunregister, hservices, hadapters⟩
    rcases Option.map_eq_some_iff.1 hunregister with ⟨other, hlookup, _⟩
    rcases unregisterStub_tables hlookup with ⟨v, hv, hservices', hadapters'⟩
    cases hunregister.symm.trans hv
    have hsame : address = ⟨domain, interface, instance_⟩ := by
      by_contra hne
      have hmem : address ∈ u.services := by
        rw [hservices', h.services, AList.mem_erase]
        exact ⟨hne, (AList.mem_insert _).2 (Or.inl rfl)⟩
      exact h.room (hservices ▸ hmem)
    subst hsame
    rw [h.services, AList.lookup_insert] at hlookup
    cases hlookup
    refine ⟨rfl, fun hmem => ?_⟩
    rw [← hadapters, hadapters'] at hmem
    exact (AList.mem_erase.1 hmem).1 rfl
  · rintro ⟨rfl, hfree⟩
    have hlookup : t.services.lookup ⟨domain, interface, instance_⟩ = some adapter := by
      rw [h.services, AList.lookup_insert]
    refine ⟨decide_eq_true (AList.lookup_isSome.1 (Option.isSome_of_eq_some hlookup)), ?_⟩
    rcases unregisterStub_tables hlookup with ⟨u, hunregister, hservices, hadapters⟩
    refine ⟨u, hunregister, ?_, ?_⟩
    · rw [hservices, h.services, SomeIPRuntime.Tables.erase_insert adapter h.room]
    · rw [hadapters, h.registeredStubAdapters, SomeIPRuntime.Tables.erase_insert adapter hfree]

end Tables

def versioned : AddressTranslator where
  forward address := if address = ⟨"local", "I:v1_1", "i"⟩ then some ⟨1, 1, 1, 1⟩ else none
  backward address := if address = ⟨1, 1, 1, 1⟩ then some ⟨"local", "I:v1_1", "i"⟩ else none

theorem same_version_undone :
    ∃ t, registerStub versioned ["I:v1_1"] (.connectionId "c") "local" "I:v1_1" "i" (some "c") (some [5])
      Factory.initial = (true, t) ∧ Undone Factory.initial t ⟨"local", "I:v1_1", "i"⟩ := by
  have hregister : ∃ t, registerStub versioned ["I:v1_1"] (.connectionId "c") "local" "I:v1_1" "i"
      (some "c") (some [5]) Factory.initial = (true, t) := ⟨_, rfl⟩
  rcases hregister with ⟨t, hregister⟩
  exact ⟨t, hregister, (unregisterStub_undoes_iff hregister).2 (by decide)⟩

/-- The stub of version 1.1, registered for version 1.0, cannot be unregistered for it. -/
theorem resolved_version_stays :
    ¬ ∀ (translator : AddressTranslator) (proxies functions : List String) (s t : Factory.State)
      (overload : Overload) (domain interface instance_ : String) (application : Option ConnectionId)
      (eventgroups : Option (List EventgroupId)),
      Reachable (ConnectionReferences.step translator proxies functions) Free Factory.initial s →
      registerStub translator functions overload domain interface instance_ application eventgroups s =
        (true, t) → Undone s t ⟨domain, interface, instance_⟩ := by
  intro h
  have hundone := h versioned [] ["I:v1_1"] Factory.initial _ (.connectionId "c") "local" "I:v1_0" "i"
    (some "c") (some [5]) .start rfl
  have hregistered := hundone.registered
  revert hregistered
  decide

end SomeIPRuntime.StubUnregistration
