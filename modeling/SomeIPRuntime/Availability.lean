import Mathlib.Data.List.AList
import SomeIPRuntime.Address
import SomeIPRuntime.Mirroring
import SomeIPRuntime.StepSystems

set_option autoImplicit false

/-!
# Availability handlers of a connection

`registerAvailabilityHandler` and `unregisterAvailabilityHandler` decide under
`availabilityMutex_` whether vsomeip has to be called, and call it when the mutex has
been released. The blocks and the calls of all threads are interleaved.
-/
namespace SomeIPRuntime.Availability
open StepSystems Mirroring

abbrev Key := ServiceId × InstanceId
abbrev HandlerId := BitVec 32

/-- `calls` are decided and still to be made, the oldest first; `registered` is what vsomeip
    has, which is one handler at most for each key and major version (the minor version is a
    constant). -/
structure State (η : Type) where
  itsHandlerId : HandlerId
  availabilityHandlers : AList fun _ : Key => AList fun _ : HandlerId => η
  calls : List (Key × Op MajorVersion)
  registered : Finset (Key × MajorVersion)

def initial {η : Type} : State η := ⟨0, ∅, [], ∅⟩

inductive Action (η : Type)
  | registerAvailabilityHandler (address : Address) (handler : η)
  | unregisterAvailabilityHandler (address : Address) (handlerId : HandlerId)
  /-- a call to vsomeip -/
  | call (key : Key) (op : Op MajorVersion)

section Steps
variable {η : Type}

def registerAvailabilityHandler (address : Address) (handler : η) (s : State η) : State η :=
  let itsCurrentHandlerId := s.itsHandlerId + 1
  match s.availabilityHandlers.lookup address.key with
  | some handlers =>
    { s with
      itsHandlerId := itsCurrentHandlerId
      availabilityHandlers :=
        s.availabilityHandlers.insert address.key (handlers.insert itsCurrentHandlerId handler) }
  | none =>
    { s with
      itsHandlerId := itsCurrentHandlerId
      availabilityHandlers :=
        s.availabilityHandlers.insert address.key (AList.singleton itsCurrentHandlerId handler)
      calls := s.calls ++ [(address.key, .add address.majorVersion)] }

def unregisterAvailabilityHandler (address : Address) (handlerId : HandlerId) (s : State η) :
    State η :=
  match s.availabilityHandlers.lookup address.key with
  | some handlers =>
    if (handlers.erase handlerId).entries = [] then
      { s with
        availabilityHandlers := s.availabilityHandlers.erase address.key
        calls := s.calls ++ [(address.key, .remove address.majorVersion)] }
    else
      { s with
        availabilityHandlers := s.availabilityHandlers.insert address.key (handlers.erase handlerId) }
  | none => s

def makeCall (key : Key) (op : Op MajorVersion) (s : State η) : State η :=
  match op with
  | .add major =>
    { s with
      calls := made key op s.calls
      registered := insert (key, major) s.registered }
  | .remove major =>
    { s with
      calls := made key op s.calls
      registered := s.registered.erase (key, major) }

def step (s : State η) : Action η → Option (State η)
  | .registerAvailabilityHandler address handler => some (registerAvailabilityHandler address handler s)
  | .unregisterAvailabilityHandler address handlerId =>
    some (unregisterAvailabilityHandler address handlerId s)
  | .call key op => if (key, op) ∈ s.calls then some (makeCall key op s) else none

def view (s : State η) (key : Key) : View MajorVersion :=
  ⟨key ∈ s.availabilityHandlers, fun major => (key, major) ∈ s.registered, callsFor key s.calls⟩

/-- Where no call is in progress, vsomeip has a handler exactly where the connection has one;
    and what is unregistered is what was registered. -/
structure Mirrored (ok : State η → Action η → Prop) (s : State η) : Prop where
  quiet : s.calls = [] →
    ∀ key, (∃ major, (key, major) ∈ s.registered) ↔ key ∈ s.availabilityHandlers
  exact : ∀ key major, (key, .remove major) ∈ s.calls → ok s (.call key (.remove major)) →
    (key, major) ∈ s.registered

def IsLast (s : State η) (key : Key) (handlerId : HandlerId) : Prop :=
  ∃ handlers ∈ s.availabilityHandlers.lookup key, (handlers.erase handlerId).entries = []

instance (s : State η) (key : Key) (handlerId : HandlerId) : Decidable (IsLast s key handlerId) := by
  unfold IsLast
  infer_instance

instance (s : State η) (key : Key) (major : MajorVersion) : Decidable (Latest (view s key) major) := by
  unfold Latest view
  dsimp only
  split <;> infer_instance

/-- The calls for a key reach vsomeip in the order in which they were decided, and the last
    unregistration has the major version of the registration that called vsomeip. -/
def Ordered (s : State η) : Action η → Prop
  | .registerAvailabilityHandler _ _ => True
  | .unregisterAvailabilityHandler address handlerId =>
    IsLast s address.key handlerId → Latest (view s address.key) address.majorVersion
  | .call key op => IsNext key op s.calls

instance (s : State η) (a : Action η) : Decidable (Ordered s a) := by
  cases a <;> unfold Ordered <;> infer_instance

end Steps

section Invariant
variable {η : Type} {s t : State η}

def Good (s : State η) : Prop := ∀ key, Mirrors (view s key)

theorem Good.mirrored (h : Good s) : Mirrored Ordered s where
  quiet hcalls key := ((h key).quiet (callsFor_of_nil hcalls)).symm
  exact key _ _ hnext := (h key).removal hnext.callsFor

theorem initial_good : Good (initial : State η) :=
  fun key => mirrors_nothing (AList.notMem_empty key) (fun _ => Finset.notMem_empty _) rfl

theorem register_good (h : Good s) (address : Address) (handler : η) :
    Good (registerAvailabilityHandler address handler s) := by
  intro key
  unfold registerAvailabilityHandler
  split
  · rename_i handlers hfound
    have hmem : address.key ∈ s.availabilityHandlers :=
      AList.lookup_isSome.1 (by rw [hfound]; rfl)
    refine (h key).same ?_ rfl fun _ => Iff.rfl
    change key ∈ s.availabilityHandlers.insert address.key _ ↔ key ∈ s.availabilityHandlers
    rw [AList.mem_insert]
    exact ⟨fun hkey => hkey.elim (fun heq => heq ▸ hmem) id, Or.inr⟩
  · rename_i hnone
    have hno : address.key ∉ s.availabilityHandlers := AList.lookup_eq_none.1 hnone
    by_cases hkey : key = address.key
    · subst hkey
      exact (h address.key).adds (fun hheld => absurd hheld hno) ((AList.mem_insert _).2 (Or.inl rfl))
        (callsFor_decided_self _ _ _) fun _ => Iff.rfl
    · refine (h key).same ?_ (callsFor_decided_ne (Ne.symm hkey) _ _) fun _ => Iff.rfl
      change key ∈ s.availabilityHandlers.insert address.key _ ↔ key ∈ s.availabilityHandlers
      rw [AList.mem_insert]
      exact ⟨fun hmem => hmem.resolve_left hkey, Or.inr⟩

theorem unregister_good (h : Good s) (address : Address) (handlerId : HandlerId)
    (hok : Ordered s (.unregisterAvailabilityHandler address handlerId)) :
    Good (unregisterAvailabilityHandler address handlerId s) := by
  intro key
  unfold unregisterAvailabilityHandler
  split
  · rename_i handlers hfound
    split
    · rename_i hlast
      by_cases hkey : key = address.key
      · subst hkey
        refine (h address.key).removes (hok ⟨handlers, hfound, hlast⟩) (fun hmem => ?_)
          (callsFor_decided_self _ _ _) fun _ => Iff.rfl
        exact (AList.mem_erase.1 hmem).1 rfl
      · refine (h key).same ?_ (callsFor_decided_ne (Ne.symm hkey) _ _) fun _ => Iff.rfl
        change key ∈ s.availabilityHandlers.erase address.key ↔ key ∈ s.availabilityHandlers
        rw [AList.mem_erase]
        exact ⟨And.right, fun hmem => ⟨hkey, hmem⟩⟩
    · have hmem : address.key ∈ s.availabilityHandlers :=
        AList.lookup_isSome.1 (by rw [hfound]; rfl)
      refine (h key).same ?_ rfl fun _ => Iff.rfl
      change key ∈ s.availabilityHandlers.insert address.key _ ↔ key ∈ s.availabilityHandlers
      rw [AList.mem_insert]
      exact ⟨fun hkey => hkey.elim (fun heq => heq ▸ hmem) id, Or.inr⟩
  · exact h key

theorem call_good (h : Good s) {key : Key} {op : Op MajorVersion} (hnext : IsNext key op s.calls) :
    Good (makeCall key op s) := by
  intro k
  by_cases hk : k = key
  · subst hk
    cases op with
    | add major =>
      refine (h k).added hnext.callsFor Iff.rfl hnext.made fun b => ?_
      change (k, b) ∈ insert (k, major) s.registered ↔ (k, b) ∈ s.registered ∨ b = major
      simp [or_comm]
    | remove major =>
      refine (h k).removed hnext.callsFor Iff.rfl hnext.made fun b => ?_
      change (k, b) ∈ s.registered.erase (k, major) ↔ (k, b) ∈ s.registered ∧ b ≠ major
      simp [and_comm]
  · cases op with
    | add major =>
      refine (h k).same Iff.rfl (callsFor_made_ne (Ne.symm hk) _ _) fun b => ?_
      change (k, b) ∈ insert (key, major) s.registered ↔ (k, b) ∈ s.registered
      simp [hk]
    | remove major =>
      refine (h k).same Iff.rfl (callsFor_made_ne (Ne.symm hk) _ _) fun b => ?_
      change (k, b) ∈ s.registered.erase (key, major) ↔ (k, b) ∈ s.registered
      simp [hk]

theorem step_good {a : Action η} (h : Good s) (hok : Ordered s a) (hstep : step s a = some t) :
    Good t := by
  cases a with
  | registerAvailabilityHandler address handler =>
    cases hstep
    exact register_good h address handler
  | unregisterAvailabilityHandler address handlerId =>
    cases hstep
    exact unregister_good h address handlerId hok
  | call key op =>
    change (if (key, op) ∈ s.calls then _ else _) = _ at hstep
    split at hstep
    · cases hstep
      exact call_good h hok
    · cases hstep

/-- In every run whose calls keep their order vsomeip mirrors the handlers of the connection. -/
theorem handlers_mirrored (h : Reachable step Ordered initial s) : Mirrored Ordered s :=
  (h.invariant initial_good fun _ _ _ => step_good).mirrored

end Invariant

def oneByOne : List (Action Unit) :=
  [.registerAvailabilityHandler ⟨1, 1, 1, 0⟩ (), .call (1, 1) (.add 1),
    .unregisterAvailabilityHandler ⟨1, 1, 1, 0⟩ 1, .registerAvailabilityHandler ⟨1, 1, 2, 0⟩ (),
    .call (1, 1) (.remove 1), .call (1, 1) (.add 2)]

theorem one_by_one_mirrored : ∃ s, run step initial oneByOne = some s ∧ Mirrored Ordered s := by
  exact ⟨_, rfl, handlers_mirrored (.of_run oneByOne (by decide) rfl)⟩

/-- The handler that the last proxy unregisters is the one that the next proxy has registered. -/
def overtaken : List (Action Unit) :=
  [.registerAvailabilityHandler ⟨1, 1, 1, 0⟩ (), .call (1, 1) (.add 1),
    .unregisterAvailabilityHandler ⟨1, 1, 1, 0⟩ 1, .registerAvailabilityHandler ⟨1, 1, 1, 0⟩ (),
    .call (1, 1) (.add 1), .call (1, 1) (.remove 1)]

theorem overtaken_handler_lost :
    ¬ ∀ s : State Unit, Reachable step Free initial s → Mirrored Free s := by
  intro h
  obtain ⟨s, hrun, hcalls, hmem, hnone⟩ : ∃ s, run step initial overtaken = some s ∧
      s.calls = [] ∧ (1, 1) ∈ s.availabilityHandlers ∧ s.registered = ∅ :=
    ⟨_, rfl, by decide, by decide, by decide⟩
  obtain ⟨major, hmajor⟩ := ((h s (reachable_of_run hrun)).quiet hcalls (1, 1)).2 hmem
  rw [hnone] at hmajor
  exact absurd hmajor (Finset.notMem_empty _)

/-- The first handler is registered for one major version and the last one unregistered for
    another. -/
example : ∃ s : State Unit, run step initial
    [.registerAvailabilityHandler ⟨1, 1, 1, 0⟩ (), .call (1, 1) (.add 1),
      .registerAvailabilityHandler ⟨1, 1, 2, 0⟩ (), .unregisterAvailabilityHandler ⟨1, 1, 1, 0⟩ 1,
      .unregisterAvailabilityHandler ⟨1, 1, 2, 0⟩ 2] = some s ∧
    ((1, 1), .remove 2) ∈ s.calls ∧ ((1, 1), 2) ∉ s.registered :=
  ⟨_, rfl, by decide, by decide⟩

end SomeIPRuntime.Availability
