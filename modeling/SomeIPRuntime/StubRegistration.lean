import SomeIPRuntime.Factory
import SomeIPRuntime.StepSystems

set_option autoImplicit false

namespace SomeIPRuntime.StubRegistration
open Factory StepSystems

inductive Phase
  | isRegisteredService (address : CommonAPIAddress)
  | getConnection (someipAddress : Address)
  | create (someipAddress : Address) (connection : Connection)
  | registerSelectiveEventHandlers (adapter : StubAdapter) (eventgroups : List EventgroupId)
  | init (adapter : StubAdapter)
  | registerStubAdapter (adapter : StubAdapter)
  | destroyAdapter (adapter : StubAdapter)
  | returned (result : Bool)
  deriving DecidableEq, Repr

/-- The tables that a call may change, and whether it did. -/
structure Call where
  overload : Overload
  phase : Phase
  changed : Bool
  deriving DecidableEq, Repr

structure State where
  factory : Factory.State
  calls : List Call

def initial : State := ⟨Factory.initial, []⟩

/-- What is not up to the factory: the application of a new connection, if it connects, and the
    selective eventgroups of the adapter that a create function makes, if it makes one. -/
structure Answer where
  application : Option ConnectionId
  eventgroups : Option (List EventgroupId)

inductive Action
  | registerStub (domain interface instance_ : String) (overload : Overload)
  | next (call : ℕ) (answer : Answer)
  | unregisterStub (address : CommonAPIAddress)
  | registerManagedService (adapter : StubAdapter)

structure Tables where
  services : AList fun _ : CommonAPIAddress => StubAdapter
  registeredStubAdapters : AList fun _ : StubKey => StubAdapter
  subscription : AList fun _ : HandlerKey => ℕ

instance : DecidableEq Tables := fun a b =>
  decidable_of_iff (a.services.entries = b.services.entries ∧
    a.registeredStubAdapters.entries = b.registeredStubAdapters.entries ∧
    a.subscription.entries = b.subscription.entries)
    ⟨fun ⟨hservices, hadapters, hsubscription⟩ =>
      (Tables.mk.injEq ..).mpr ⟨AList.ext hservices, AList.ext hadapters, AList.ext hsubscription⟩,
      fun h => h ▸ ⟨rfl, rfl, rfl⟩⟩

def tables (s : Factory.State) : Tables := ⟨s.services, s.registeredStubAdapters, s.subscription⟩

section Steps
variable (translator : AddressTranslator) (functions : List String)

def start (domain interface instance_ : String) (overload : Overload) : Call :=
  match findCreateFunction functions interface with
  | none => ⟨overload, .returned false, false⟩
  | some itsInterface => ⟨overload, .isRegisteredService ⟨domain, itsInterface, instance_⟩, false⟩

def block (answer : Answer) (overload : Overload) (s : Factory.State) : Phase → Phase × Factory.State
  | .isRegisteredService address =>
    if address ∈ s.services then (.returned false, s)
    else match stubAddress translator overload address with
      | some someipAddress => (.getConnection someipAddress, s)
      | none => (.returned false, s)
  | .getConnection someipAddress =>
    match Factory.getConnection overload.connection answer.application s with
    | some (connection, s) => (.create someipAddress connection, s)
    | none => (.returned false, s)
  | .create someipAddress connection =>
    match answer.eventgroups with
    | some eventgroups =>
      (.registerSelectiveEventHandlers ⟨s.adapters, someipAddress, noAddress, connection, eventgroups⟩
        eventgroups, { s with adapters := s.adapters + 1 })
    | none => (.returned false, s)
  | .registerSelectiveEventHandlers adapter eventgroups =>
    match eventgroups with
    | eventgroup :: rest =>
      (.registerSelectiveEventHandlers adapter rest, registerSubscriptionHandler adapter s eventgroup)
    | [] => (.init adapter, s)
  | .init adapter => (.registerStubAdapter (adapter.init translator), s)
  | .registerStubAdapter adapter =>
    match Factory.registerStubAdapter translator adapter s with
    | some s => (.returned true, s)
    | none => (.destroyAdapter adapter, s)
  | .destroyAdapter adapter => (.returned false, Factory.destroyAdapter adapter s)
  | .returned result => (.returned result, s)

def next (answer : Answer) (call : Call) (s : Factory.State) : Call × Factory.State :=
  let (phase, t) := block translator answer call.overload s call.phase
  ({ call with phase := phase, changed := call.changed || tables t != tables s }, t)

def step (s : State) : Action → Option State
  | .registerStub domain interface instance_ overload =>
    some { s with calls := s.calls ++ [start functions domain interface instance_ overload] }
  | .next i answer =>
    s.calls[i]?.map fun call =>
      let (call, factory) := next translator answer call s.factory
      ⟨factory, s.calls.set i call⟩
  | .unregisterStub address => some { s with factory := (unregisterStub address s.factory).getD s.factory }
  | .registerManagedService adapter =>
    some { s with
      factory := ((Factory.registerStubAdapter translator adapter s.factory).map
        (incrementConnection adapter.connection)).getD s.factory }

/-- A call that returns false has changed none of the tables. -/
def Harmless (s : State) : Prop :=
  ∀ call ∈ s.calls, call.phase = .returned false → call.changed = false

/-- An adapter that cannot be inserted has no selective events, and when it is destroyed there is no
    adapter for its address. -/
def CallOrdered (s : Factory.State) : Phase → Prop
  | .registerStubAdapter adapter =>
    adapter.eventgroups = [] ∨ ∃ address ∈ translator.backward adapter.someipAddress, address ∉ s.services
  | .destroyAdapter adapter => adapter.address ∉ s.services
  | _ => True

def Ordered (s : State) : Action → Prop
  | .next i _ => ∀ call ∈ s.calls[i]?, CallOrdered translator s.factory call.phase
  | _ => True

instance (s : Factory.State) : (phase : Phase) → Decidable (CallOrdered translator s phase)
  | .registerStubAdapter adapter =>
    inferInstanceAs (Decidable (adapter.eventgroups = [] ∨
      ∃ address ∈ translator.backward adapter.someipAddress, address ∉ s.services))
  | .destroyAdapter adapter => inferInstanceAs (Decidable (adapter.address ∉ s.services))
  | .isRegisteredService _ | .getConnection _ | .create _ _ | .registerSelectiveEventHandlers _ _
  | .init _ | .returned _ => .isTrue trivial

instance (s : State) : (a : Action) → Decidable (Ordered translator s a)
  | .next i _ =>
    inferInstanceAs (Decidable (∀ call ∈ s.calls[i]?, CallOrdered translator s.factory call.phase))
  | .registerStub .. | .unregisterStub _ | .registerManagedService _ => .isTrue trivial

end Steps

section Alone
open Relation
variable {translator : AddressTranslator} {functions : List String}

/-- The blocks of one call, with nothing in between. -/
def Alone (translator : AddressTranslator) (answer : Answer) (overload : Overload)
    (p q : Phase × Factory.State) : Prop := block translator answer overload p.2 p.1 = q

theorem handlers_alone (answer : Answer) (overload : Overload) (adapter : StubAdapter)
    (eventgroups : List EventgroupId) (s : Factory.State) :
    ReflTransGen (Alone translator answer overload)
      (.registerSelectiveEventHandlers adapter eventgroups, s)
      (.init adapter, eventgroups.foldl (registerSubscriptionHandler adapter) s) := by
  induction eventgroups generalizing s with
  | nil => exact .single rfl
  | cons eventgroup rest ih => exact .head rfl (ih _)

theorem insertion_alone (answer : Answer) (overload : Overload) (adapter : StubAdapter)
    (s : Factory.State) :
    ReflTransGen (Alone translator answer overload) (.registerStubAdapter adapter, s)
      (Prod.map .returned id (match Factory.registerStubAdapter translator adapter s with
        | some s => (true, s)
        | none => (false, Factory.destroyAdapter adapter s))) := by
  cases hregister : Factory.registerStubAdapter translator adapter s with
  | some t =>
    refine .single ?_
    simp only [Alone, block, hregister]
    rfl
  | none =>
    refine .head (b := (.destroyAdapter adapter, s)) ?_ (.single ?_)
    · simp only [Alone, block, hregister]
    · rfl

/-- The blocks of a call that no other call interrupts are `registerStub`. -/
theorem registerStub_alone (answer : Answer) (overload : Overload) (domain interface instance_ : String)
    (s : Factory.State) :
    ReflTransGen (Alone translator answer overload)
      ((start functions domain interface instance_ overload).phase, s)
      ((registerStub translator functions overload domain interface instance_ answer.application
          answer.eventgroups s).map .returned id) := by
  unfold registerStub start
  cases findCreateFunction functions interface with
  | none => exact .refl
  | some itsInterface =>
    dsimp only
    by_cases hmem : ⟨domain, itsInterface, instance_⟩ ∈ s.services
    · rw [if_pos hmem]
      exact .single (if_pos hmem)
    · rw [if_neg hmem]
      cases haddress : stubAddress translator overload ⟨domain, itsInterface, instance_⟩ with
      | none =>
        refine .single ((if_neg hmem).trans ?_)
        rw [haddress]
        rfl
      | some someipAddress =>
        refine .head ((if_neg hmem).trans (by rw [haddress])) ?_
        cases hget : Factory.getConnection overload.connection answer.application s with
        | none =>
          refine .single ?_
          simp only [Alone, block, hget]
          rfl
        | some result =>
          obtain ⟨connection, t⟩ := result
          refine .head (b := (.create someipAddress connection, t)) ?_ ?_
          · simp only [Alone, block, hget]
          cases heventgroups : answer.eventgroups with
          | none =>
            refine .single ?_
            simp only [Alone, block, heventgroups]
            rfl
          | some eventgroups =>
            let adapter : StubAdapter := ⟨t.adapters, someipAddress, noAddress, connection, eventgroups⟩
            refine .head (b := (.registerSelectiveEventHandlers adapter eventgroups,
              { t with adapters := t.adapters + 1 })) ?_ ?_
            · simp only [Alone, block, heventgroups]
              rfl
            refine (handlers_alone answer overload adapter eventgroups _).trans (.head rfl ?_)
            exact insertion_alone answer overload (adapter.init translator)
              (registerSelectiveEventHandlers adapter { t with adapters := t.adapters + 1 })

end Alone

section Invariant
variable {translator : AddressTranslator} {functions : List String} {s t : State}

def Untouched (changed : Bool) : Phase → Prop
  | .registerSelectiveEventHandlers adapter eventgroups =>
    (changed = true → adapter.eventgroups ≠ []) ∧ ∀ eventgroup ∈ eventgroups, eventgroup ∈ adapter.eventgroups
  | .init adapter | .registerStubAdapter adapter => changed = true → adapter.eventgroups ≠ []
  | .returned true => True
  | _ => changed = false

def Good (s : State) : Prop := ∀ call ∈ s.calls, Untouched call.changed call.phase

theorem Good.harmless (h : Good s) : Harmless s := by
  intro call hmem hreturned
  have huntouched := h call hmem
  rw [hreturned] at huntouched
  exact huntouched

theorem start_untouched (domain interface instance_ : String) (overload : Overload) :
    Untouched (start functions domain interface instance_ overload).changed
      (start functions domain interface instance_ overload).phase := by
  unfold start
  split <;> rfl

theorem tables_incrementConnection (connection : Connection) (s : Factory.State) :
    tables (incrementConnection connection s) = tables s := by
  unfold incrementConnection
  split <;> rfl

theorem tables_getConnection {connectionId : ConnectionId} {application : Option ConnectionId} {s t : Factory.State}
    {connection : Connection}
    (h : Factory.getConnection connectionId application s = some (connection, t)) : tables t = tables s := by
  unfold Factory.getConnection at h
  split at h
  · cases h
    exact tables_incrementConnection _ _
  · obtain ⟨name, _, heq⟩ := Option.map_eq_some_iff.1 h
    cases heq
    exact tables_incrementConnection _ _

theorem next_same {answer : Answer} {call : Call} {s : Factory.State} (phase : Phase) (t : Factory.State)
    (hblock : block translator answer call.overload s call.phase = (phase, t))
    (htables : tables t = tables s) (h : Untouched call.changed phase) :
    Untouched (next translator answer call s).1.changed (next translator answer call s).1.phase := by
  unfold next
  rw [hblock]
  dsimp only
  rw [htables, bne_self_eq_false, Bool.or_false]
  exact h

theorem not_inserted {adapter : StubAdapter} {s : Factory.State}
    (h : Factory.registerStubAdapter translator adapter s = none) :
    ¬ ∃ address ∈ translator.backward adapter.someipAddress, address ∉ s.services := by
  rintro ⟨address, haddress, hmem⟩
  have hsome : translator.backward adapter.someipAddress = some address := haddress
  unfold Factory.registerStubAdapter at h
  rw [hsome, Option.bind_some, if_neg hmem] at h
  cases h

theorem next_untouched {answer : Answer} {call : Call} {s : Factory.State}
    (h : Untouched call.changed call.phase) (hok : CallOrdered translator s call.phase) :
    Untouched (next translator answer call s).1.changed (next translator answer call s).1.phase := by
  obtain ⟨overload, phase, changed⟩ := call
  cases phase with
  | isRegisteredService address =>
    by_cases hmem : address ∈ s.services
    · exact next_same _ _ (if_pos hmem) rfl h
    · cases haddress : stubAddress translator overload address with
      | some someipAddress =>
        refine next_same (.getConnection someipAddress) s ((if_neg hmem).trans ?_) rfl h
        rw [haddress]
      | none =>
        refine next_same (.returned false) s ((if_neg hmem).trans ?_) rfl h
        rw [haddress]
  | getConnection someipAddress =>
    cases hget : Factory.getConnection overload.connection answer.application s with
    | some result =>
      obtain ⟨connection, t⟩ := result
      refine next_same (.create someipAddress connection) t ?_ (tables_getConnection hget) h
      unfold block
      rw [hget]
    | none =>
      refine next_same (.returned false) s ?_ rfl h
      unfold block
      rw [hget]
  | create someipAddress connection =>
    cases heventgroups : answer.eventgroups with
    | some eventgroups =>
      refine next_same
        (.registerSelectiveEventHandlers ⟨s.adapters, someipAddress, noAddress, connection, eventgroups⟩
          eventgroups) { s with adapters := s.adapters + 1 } ?_ rfl
        ⟨fun hchanged => ?_, fun _ hmem => hmem⟩
      · unfold block
        rw [heventgroups]
      · cases h.symm.trans hchanged
    | none =>
      refine next_same (.returned false) s ?_ rfl h
      unfold block
      rw [heventgroups]
  | registerSelectiveEventHandlers adapter eventgroups =>
    cases eventgroups with
    | nil => exact next_same _ _ rfl rfl h.1
    | cons eventgroup rest =>
      refine ⟨fun _ => List.ne_nil_of_mem (h.2 eventgroup List.mem_cons_self), fun g hg => ?_⟩
      exact h.2 g (List.mem_cons_of_mem _ hg)
  | init adapter => exact next_same _ _ rfl rfl h
  | registerStubAdapter adapter =>
    cases hregister : Factory.registerStubAdapter translator adapter s with
    | some t =>
      have hblock : block translator answer overload s (.registerStubAdapter adapter) =
          (.returned true, t) := by
        simp only [block, hregister]
      unfold next
      rw [hblock]
      trivial
    | none =>
      refine next_same (.destroyAdapter adapter) s ?_ rfl ?_
      · simp only [block, hregister]
      · cases changed with
        | false => rfl
        | true => exact absurd (hok.resolve_right (not_inserted hregister)) (h rfl)
  | destroyAdapter adapter =>
    refine next_same (.returned false) s ?_ rfl h
    have hnone : unregisterStub adapter.address s = none := by
      unfold unregisterStub
      rw [AList.lookup_eq_none.2 hok, Option.map_none]
    simp only [block, Factory.destroyAdapter, hnone, Option.getD_none]
  | returned result => exact next_same _ _ rfl rfl h

theorem step_good {a : Action} (h : Good s) (hok : Ordered translator s a)
    (hstep : step translator functions s a = some t) : Good t := by
  cases a with
  | registerStub domain interface instance_ overload =>
    cases hstep
    intro call hmem
    obtain hold | hnew := List.mem_append.1 hmem
    · exact h call hold
    · rw [List.mem_singleton.1 hnew]
      exact start_untouched domain interface instance_ overload
  | next i answer =>
    obtain ⟨call, hcall, heq⟩ := Option.map_eq_some_iff.1 hstep
    subst heq
    intro other hmem
    obtain hold | hnew := List.mem_or_eq_of_mem_set hmem
    · exact h other hold
    · rw [hnew]
      exact next_untouched (h call (List.mem_of_getElem? hcall)) (hok call hcall)
  | unregisterStub address =>
    cases hstep
    exact h
  | registerManagedService adapter =>
    cases hstep
    exact h

/-- In every run of ordered steps a failed `registerStub` is harmless. -/
theorem failed_registration_harmless
    (h : Reachable (step translator functions) (Ordered translator) initial s) : Harmless s := by
  have hinitial : Good initial := fun call hmem => (by cases hmem)
  exact (h.invariant hinitial fun _ _ _ => step_good).harmless

end Invariant

def aliased : AddressTranslator where
  forward address := if address.interface = "I" then some ⟨1, 1, 1, 0⟩ else none
  backward address := if address.service = 1 then some ⟨"local", "I", "i"⟩ else none

def connected (eventgroups : List EventgroupId) : Answer := ⟨some "c", some eventgroups⟩

def failing : List Action :=
  .registerStub "local" "I" "i" (.connectionId "c") :: List.replicate 7 (.next 0 (connected [5])) ++
    .registerStub "local" "I" "i" (.connectionId "c") :: .next 1 (connected [5]) ::
    .registerStub "local" "J" "i" (.connectionId "c") :: List.replicate 7 (.next 2 (connected []))

theorem unmapped_registration_harmless :
    ∃ s, run (step aliased ["I", "J"]) initial failing = some s ∧
      s.calls.map Call.phase = [.returned true, .returned false, .returned false] ∧ Harmless s := by
  have hrun : ∃ s, run (step aliased ["I", "J"]) initial failing = some s ∧
      s.calls.map Call.phase = [.returned true, .returned false, .returned false] :=
    ⟨_, rfl, by decide⟩
  obtain ⟨s, hs, hphases⟩ := hrun
  exact ⟨s, hs, hphases, failed_registration_harmless (.of_run failing (by decide) hs)⟩

def twice : List Action :=
  [.registerStub "local" "I" "i" (.connectionId "c"), .registerStub "local" "I" "i" (.connectionId "c"),
    .next 0 (connected [5]), .next 1 (connected [5])] ++
    List.replicate 6 (.next 0 (connected [5])) ++ List.replicate 7 (.next 1 (connected [5]))

theorem rejected_adapter_unregisters :
    ¬ ∀ (translator : AddressTranslator) (functions : List String) (s : State),
      Reachable (step translator functions) Free initial s → Harmless s := by
  intro h
  obtain ⟨s, hrun, hcalls⟩ : ∃ s, run (step aliased ["I", "J"]) initial twice = some s ∧
      s.calls = [⟨.connectionId "c", .returned true, true⟩, ⟨.connectionId "c", .returned false, true⟩] :=
    ⟨_, rfl, by decide⟩
  have hmem : Call.mk (.connectionId "c") (.returned false) true ∈ s.calls := by
    rw [hcalls]
    exact List.mem_cons_of_mem _ List.mem_cons_self
  cases h aliased _ s (reachable_of_run hrun) _ hmem rfl

end SomeIPRuntime.StubRegistration
