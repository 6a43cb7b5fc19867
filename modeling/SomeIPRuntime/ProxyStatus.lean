import SomeIPRuntime.StepSystems

set_option autoImplicit false

namespace SomeIPRuntime.ProxyStatus
open StepSystems

inductive AvailabilityStatus
  | unknown
  | available
  | notAvailable
  deriving DecidableEq, Repr

def AvailabilityStatus.of (isAvailable : Bool) : AvailabilityStatus :=
  if isAvailable then .available else .notAvailable

/-- What `init` does next. The three steps behind `requestService` are those of
    `Connection::isAvailable`. -/
inductive Phase
  | registerAvailabilityHandler
  | requestService
  | connectionStatus
  | availabilityCalled
  | isAvailable
  | store
  | returned
  deriving DecidableEq, Repr

/-- `isRegistered`, `availabilityCalled` and `handler` are of the connection, the latter two for the
    service of the proxy; `isAvailable` is what vsomeip answers. `pending` are the callbacks that are
    delivered to `onServiceInstanceStatus` and have not changed the status yet, `delivered` records all
    of them. -/
structure State where
  isRegistered : Bool
  availabilityCalled : Bool
  handler : Bool
  isAvailable : Bool
  init : Phase
  availabilityStatus : AvailabilityStatus
  pending : List Bool
  delivered : List Bool
  deriving DecidableEq, Repr

def created (isRegistered availabilityCalled isAvailable : Bool) : State :=
  ⟨isRegistered, availabilityCalled, false, isAvailable, .registerAvailabilityHandler, .unknown, [], []⟩

inductive Action
  | init
  | handleAvailabilityChange (isAvailable : Bool)
  | onServiceInstanceStatus
  | onConnectionEvent (isRegistered : Bool)
  | change (isAvailable : Bool)
  deriving DecidableEq, Repr

/-- The next step of `Proxy::init`. -/
def init (s : State) : Option State :=
  match s.init with
  | .registerAvailabilityHandler => some { s with handler := true, init := .requestService }
  | .requestService => some { s with init := .connectionStatus }
  | .connectionStatus => some { s with init := if s.isRegistered then .availabilityCalled else .returned }
  | .availabilityCalled => some { s with init := if s.availabilityCalled then .isAvailable else .returned }
  | .isAvailable => some { s with init := if s.isAvailable then .store else .returned }
  | .store => some { s with availabilityStatus := .available, init := .returned }
  | .returned => none

def handleAvailabilityChange (isAvailable : Bool) (s : State) : State :=
  let s := { s with availabilityCalled := true }
  if s.handler then
    { s with pending := s.pending ++ [isAvailable], delivered := s.delivered ++ [isAvailable] }
  else s

/-- The block of `onServiceInstanceStatus` under `availabilityMutex_`. -/
def onServiceInstanceStatus (isAvailable : Bool) (s : State) : State :=
  if s.availabilityStatus = .of isAvailable then s
  else { s with availabilityStatus := .of isAvailable }

def step (s : State) : Action → Option State
  | .init => init s
  | .handleAvailabilityChange isAvailable => some (handleAvailabilityChange isAvailable s)
  | .onServiceInstanceStatus =>
    match s.pending with
    | isAvailable :: rest => some (onServiceInstanceStatus isAvailable { s with pending := rest })
    | [] => none
  | .onConnectionEvent isRegistered => some { s with isRegistered := isRegistered }
  | .change isAvailable => some { s with isAvailable := isAvailable }

def UpToDate (s : State) : Prop :=
  s.pending = [] → ∀ isAvailable ∈ s.delivered.getLast?, s.availabilityStatus = .of isAvailable

def Fresh (s : State) : Prop := s.init = .returned → UpToDate s

/-- `AVAILABLE` is not stored where the last callback has been for `NOT_AVAILABLE` and has been
    processed. -/
def Careful (s : State) : Action → Prop
  | .init => s.init = .store → s.pending = [] → s.delivered.getLast? ≠ some false
  | _ => True

instance (s : State) : (a : Action) → Decidable (Careful s a)
  | .init => inferInstanceAs (Decidable (_ → _ → _))
  | .handleAvailabilityChange _ | .onServiceInstanceStatus | .onConnectionEvent _ | .change _ =>
    .isTrue trivial

section Steps
variable {s t : State}

/-- The callbacks are processed in the order in which they are delivered. -/
structure Good (s : State) : Prop where
  suffix : s.pending <:+ s.delivered
  upToDate : UpToDate s

theorem init_frame (h : init s = some t) (hphase : s.init ≠ .store) :
    t.pending = s.pending ∧ t.delivered = s.delivered ∧ t.availabilityStatus = s.availabilityStatus := by
  unfold init at h
  split at h <;> cases h
  all_goals first
    | exact ⟨rfl, rfl, rfl⟩
    | exact absurd ‹s.init = .store› hphase

theorem init_store (hphase : s.init = .store) :
    init s = some { s with availabilityStatus := .available, init := .returned } := by
  unfold init
  rw [hphase]

theorem Good.init (h : Good s) (hok : Careful s .init) (hstep : ProxyStatus.init s = some t) : Good t := by
  by_cases hphase : s.init = .store
  · rw [init_store hphase] at hstep
    cases hstep
    refine ⟨h.suffix, fun hpending isAvailable hlast => ?_⟩
    cases isAvailable with
    | false => exact absurd hlast (hok hphase hpending)
    | true => rfl
  · rcases init_frame hstep hphase with ⟨hpending, hdelivered, hstatus⟩
    refine ⟨by rw [hpending, hdelivered]; exact h.suffix, ?_⟩
    unfold UpToDate
    rw [hpending, hdelivered, hstatus]
    exact h.upToDate

theorem Good.handleAvailabilityChange (h : Good s) (isAvailable : Bool) :
    Good (handleAvailabilityChange isAvailable s) := by
  unfold ProxyStatus.handleAvailabilityChange
  dsimp only
  split
  · refine ⟨?_, fun hnil => absurd hnil (List.append_ne_nil_of_right_ne_nil _ (List.cons_ne_nil _ _))⟩
    rcases h.suffix with ⟨before, hbefore⟩
    exact ⟨before, by rw [← List.append_assoc, hbefore]⟩
  · exact ⟨h.suffix, h.upToDate⟩

theorem onServiceInstanceStatus_status (isAvailable : Bool) (s : State) :
    onServiceInstanceStatus isAvailable s = { s with availabilityStatus := .of isAvailable } := by
  unfold onServiceInstanceStatus
  split
  next hsame => rw [← hsame]
  · rfl

/-- The last pending callback is the last one that was delivered. -/
theorem Good.onServiceInstanceStatus {isAvailable : Bool} {rest : List Bool} (h : Good s)
    (hpending : s.pending = isAvailable :: rest) :
    Good (onServiceInstanceStatus isAvailable { s with pending := rest }) := by
  rw [onServiceInstanceStatus_status]
  have hsuffix := h.suffix
  rw [hpending] at hsuffix
  refine ⟨(List.suffix_cons isAvailable rest).trans hsuffix, ?_⟩
  intro hnil last hlast
  change rest = [] at hnil
  change s.delivered.getLast? = some last at hlast
  rcases hsuffix with ⟨before, hbefore⟩
  rw [← hbefore, hnil, List.getLast?_concat] at hlast
  cases hlast
  rfl

theorem step_good (a : Action) (h : Good s) (hok : Careful s a) (hstep : step s a = some t) : Good t := by
  cases a with
  | init => exact h.init hok hstep
  | handleAvailabilityChange isAvailable =>
    cases hstep
    exact h.handleAvailabilityChange isAvailable
  | onServiceInstanceStatus =>
    unfold step at hstep
    cases hpending : s.pending with
    | nil =>
      rw [hpending] at hstep
      cases hstep
    | cons isAvailable rest =>
      rw [hpending] at hstep
      cases hstep
      exact h.onServiceInstanceStatus hpending
  | onConnectionEvent isRegistered =>
    cases hstep
    exact ⟨h.suffix, h.upToDate⟩
  | change isAvailable =>
    cases hstep
    exact ⟨h.suffix, h.upToDate⟩

theorem careful_of_fresh (a : Action) (hstep : step s a = some t) (hfresh : Fresh t) : Careful s a := by
  cases a with
  | init =>
    intro hphase hpending hlast
    change init s = some t at hstep
    rw [init_store hphase] at hstep
    cases hstep
    cases hfresh rfl hpending false hlast
  | _ => trivial

end Steps

/-- In a run of `init` with any callbacks, the status is never stale just if `AVAILABLE` is not stored
    after the last callback has set `NOT_AVAILABLE`. -/
theorem status_fresh_iff {isRegistered availabilityCalled isAvailable : Bool} {as : List Action} {t : State}
    (hrun : run step (created isRegistered availabilityCalled isAvailable) as = some t) :
    Along step Fresh (created isRegistered availabilityCalled isAvailable) as ↔
      Meets step Careful (created isRegistered availabilityCalled isAvailable) as :=
  along_iff_meets hrun ⟨List.suffix_rfl, fun _ => nofun⟩ (fun _ hs _ => hs.upToDate)
    (fun _ a _ hs hok hstep => step_good a hs hok hstep)
    (fun _ a _ _ hstep hfresh => careful_of_fresh a hstep hfresh)

/-- The service goes after `init` has stored the status, and comes back. -/
def downAndUp : List Action :=
  List.replicate 6 .init ++ [.handleAvailabilityChange false, .onServiceInstanceStatus,
    .handleAvailabilityChange true, .onServiceInstanceStatus]

theorem down_and_up_fresh : Along step Fresh (created true true true) downAndUp :=
  (status_fresh_iff (t := (run step (created true true true) downAndUp).get (by decide))
    (Option.some_get _).symm).2 (by decide)

/-- The service goes between the question and the store. -/
theorem stale_status_stored :
    ¬ ∀ (isRegistered availabilityCalled isAvailable : Bool) (as : List Action) (t : State),
      run step (created isRegistered availabilityCalled isAvailable) as = some t → Fresh t := by
  intro h
  have hfresh := h true true true (List.replicate 5 .init ++ [.change false,
    .handleAvailabilityChange false, .onServiceInstanceStatus, .init]) _ rfl
  cases hfresh rfl rfl false rfl

end SomeIPRuntime.ProxyStatus
