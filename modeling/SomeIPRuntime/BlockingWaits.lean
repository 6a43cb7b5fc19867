import SomeIPRuntime.ConditionVariables
import SomeIPRuntime.ProxyStatus

set_option autoImplicit false

/-!
# Waiting for a connection and for a proxy

`Connection::waitUntilConnected` and `Proxy::isAvailableBlocking` loop on a condition variable until
the status is right. Any number of threads may wait, but a change of the status is followed by
`notify_one`. The status of the proxy is changed in one block and notified in a later one, so that
the blocks of several changes are interleaved.
-/
namespace SomeIPRuntime.BlockingWaits
open StepSystems ConditionVariables
open ProxyStatus (AvailabilityStatus)

/-- `isRegistered` is `connectionStatus_`. `onward` are the threads in `isAvailableBlocking` that have
    not locked `availabilityMutex_` yet. The changes of the status of the proxy are numbered, `pending`
    are those that are still to be notified. -/
structure State (τ : Type) where
  isRegistered : Bool
  connectionCondition : Condition τ
  onward : Finset τ
  availabilityStatus : AvailabilityStatus
  availabilityCondition : Condition τ
  changes : ℕ
  pending : Finset ℕ

/-- A proxy that `init` has left, in any state, before a thread waits for it or its connection. -/
def created {τ : Type} (isRegistered : Bool) (availabilityStatus : AvailabilityStatus) (changes : ℕ)
    (pending : Finset ℕ) : State τ :=
  ⟨isRegistered, .idle, ∅, availabilityStatus, .idle, changes, pending⟩

/-- `chosen` is the thread that a notification wakes. -/
inductive Action (τ : Type)
  | waitUntilConnected (t : τ)
  | isAvailableBlocking (t : τ)
  /-- a woken thread in `waitUntilConnected` -/
  | recheckConnected (t : τ)
  /-- behind `waitUntilConnected` in `isAvailableBlocking` -/
  | lockAvailability (t : τ)
  | recheckAvailable (t : τ)
  | spuriousConnected (t : τ)
  | spuriousAvailable (t : τ)
  | onServiceInstanceStatus (isAvailable : Bool)
  /-- the last block of `onServiceInstanceStatus` -/
  | notifyAvailability (change : ℕ) (chosen : Option τ)
  | onConnectionEvent (isRegistered : Bool) (chosen : Option τ)
  /-- the last block of `doDisconnect` -/
  | doDisconnect

section Steps
variable {τ : Type} [DecidableEq τ]

def waitUntilConnected (t : τ) (s : State τ) : State τ :=
  { s with connectionCondition := s.connectionCondition.waitWhile (s.isRegistered = true) t }

def waitUntilAvailable (t : τ) (s : State τ) : State τ :=
  { s with
    availabilityCondition :=
      s.availabilityCondition.waitWhile (s.availabilityStatus = .available) t }

def onServiceInstanceStatus (isAvailable : Bool) (s : State τ) : State τ :=
  if s.availabilityStatus = .of isAvailable then s
  else
    { s with
      availabilityStatus := .of isAvailable
      changes := s.changes + 1
      pending := insert (s.changes + 1) s.pending }

def Outside (t : τ) (s : State τ) : Prop :=
  t ∉ s.onward ∧ t ∉ s.connectionCondition.blocked ∧ t ∉ s.connectionCondition.woken ∧
    t ∉ s.availabilityCondition.blocked ∧ t ∉ s.availabilityCondition.woken

instance (t : τ) (s : State τ) : Decidable (Outside t s) := inferInstanceAs (Decidable (_ ∧ _))

def step (s : State τ) : Action τ → Option (State τ)
  | .waitUntilConnected t => if Outside t s then some (waitUntilConnected t s) else none
  | .isAvailableBlocking t =>
    if Outside t s then some (waitUntilConnected t { s with onward := insert t s.onward }) else none
  | .recheckConnected t =>
    (s.connectionCondition.resume t).map fun c =>
      waitUntilConnected t { s with connectionCondition := c }
  | .lockAvailability t =>
    if t ∈ s.onward ∧ t ∉ s.connectionCondition.blocked ∧ t ∉ s.connectionCondition.woken then
      some (waitUntilAvailable t { s with onward := s.onward.erase t })
    else none
  | .recheckAvailable t =>
    (s.availabilityCondition.resume t).map fun c =>
      waitUntilAvailable t { s with availabilityCondition := c }
  | .spuriousConnected t =>
    (s.connectionCondition.wake t).map fun c => { s with connectionCondition := c }
  | .spuriousAvailable t =>
    (s.availabilityCondition.wake t).map fun c => { s with availabilityCondition := c }
  | .onServiceInstanceStatus isAvailable => some (onServiceInstanceStatus isAvailable s)
  | .notifyAvailability change chosen =>
    if change ∈ s.pending then
      (s.availabilityCondition.notifyOne chosen).map fun c =>
        { s with availabilityCondition := c, pending := s.pending.erase change }
    else none
  | .onConnectionEvent isRegistered chosen =>
    (s.connectionCondition.notifyOne chosen).map fun c =>
      { s with isRegistered := isRegistered, connectionCondition := c }
  | .doDisconnect => some { s with isRegistered := false }

end Steps

/-- Where the status is right and its change has been notified, nobody is blocked without a wake-up. -/
structure NoneLeft {τ : Type} (s : State τ) : Prop where
  available : s.availabilityStatus = .available → s.changes ∉ s.pending →
    s.availabilityCondition.blocked = ∅
  connected : s.isRegistered = true → s.connectionCondition.blocked = ∅

/-- The notification that is to wake the threads finds one of them at most. -/
def OneAtMost {τ : Type} (s : State τ) : Action τ → Prop
  | .notifyAvailability change _ => s.availabilityStatus = .available → change = s.changes →
    s.availabilityCondition.blocked.card ≤ 1
  | .onConnectionEvent isRegistered _ => isRegistered = true →
    s.connectionCondition.blocked.card ≤ 1
  | _ => True

section Step
variable {τ : Type} {s : State τ}

/-- The change that has just been made is still to be notified. -/
theorem NoneLeft.onServiceInstanceStatus (h : NoneLeft s) (isAvailable : Bool) :
    NoneLeft (onServiceInstanceStatus isAvailable s) := by
  unfold BlockingWaits.onServiceInstanceStatus
  split_ifs
  · exact h
  · exact ⟨fun _ hnotified => absurd (Finset.mem_insert_self _ _) hnotified, h.connected⟩

variable [DecidableEq τ]

theorem NoneLeft.waitUntilConnected (h : NoneLeft s) (t : τ) :
    NoneLeft (waitUntilConnected t s) := by
  refine ⟨h.available, fun hregistered => ?_⟩
  have hregistered : s.isRegistered = true := hregistered
  change (s.connectionCondition.waitWhile (s.isRegistered = true) t).blocked = ∅
  rw [Condition.waitWhile_of _ hregistered]
  exact h.connected hregistered

theorem NoneLeft.waitUntilAvailable (h : NoneLeft s) (t : τ) :
    NoneLeft (waitUntilAvailable t s) := by
  refine ⟨fun havailable hnotified => ?_, h.connected⟩
  have havailable : s.availabilityStatus = .available := havailable
  change (s.availabilityCondition.waitWhile (s.availabilityStatus = .available) t).blocked = ∅
  rw [Condition.waitWhile_of _ havailable]
  exact h.available havailable hnotified

/-- If another change is notified, the last one has been notified before. -/
theorem NoneLeft.notifyAvailability (h : NoneLeft s) {change : ℕ} {chosen : Option τ}
    (hone : OneAtMost s (.notifyAvailability change chosen)) {c : Condition τ}
    (hnotify : s.availabilityCondition.notifyOne chosen = some c) :
    NoneLeft { s with availabilityCondition := c, pending := s.pending.erase change } := by
  refine ⟨fun havailable hnotified => ?_, h.connected⟩
  by_cases hlast : change = s.changes
  · exact (Condition.notifyOne_none_left_iff hnotify).2 (hone havailable hlast)
  · have hbefore : s.changes ∉ s.pending := fun hpending =>
      hnotified (Finset.mem_erase.2 ⟨Ne.symm hlast, hpending⟩)
    exact Condition.notifyOne_none_left hnotify (h.available havailable hbefore)

theorem NoneLeft.step (h : NoneLeft s) {a : Action τ} {t : State τ} (hone : OneAtMost s a)
    (hstep : BlockingWaits.step s a = some t) : NoneLeft t := by
  cases a with
  | waitUntilConnected thread =>
    dsimp only [BlockingWaits.step] at hstep
    split_ifs at hstep
    cases hstep
    exact h.waitUntilConnected thread
  | isAvailableBlocking thread =>
    dsimp only [BlockingWaits.step] at hstep
    split_ifs at hstep
    cases hstep
    have hentered : NoneLeft { s with onward := insert thread s.onward } := ⟨h.available, h.connected⟩
    exact hentered.waitUntilConnected thread
  | recheckConnected thread =>
    rcases Option.map_eq_some_iff.1 hstep with ⟨c, hresume, rfl⟩
    have hresumed : NoneLeft { s with connectionCondition := c } :=
      ⟨h.available, fun hregistered => (Condition.resume_blocked hresume).trans (h.connected hregistered)⟩
    exact hresumed.waitUntilConnected thread
  | lockAvailability thread =>
    dsimp only [BlockingWaits.step] at hstep
    split_ifs at hstep
    cases hstep
    have hbetween : NoneLeft { s with onward := s.onward.erase thread } := ⟨h.available, h.connected⟩
    exact hbetween.waitUntilAvailable thread
  | recheckAvailable thread =>
    rcases Option.map_eq_some_iff.1 hstep with ⟨c, hresume, rfl⟩
    have hresumed : NoneLeft { s with availabilityCondition := c } :=
      ⟨fun havailable hnotified =>
        (Condition.resume_blocked hresume).trans (h.available havailable hnotified), h.connected⟩
    exact hresumed.waitUntilAvailable thread
  | spuriousConnected thread =>
    rcases Option.map_eq_some_iff.1 hstep with ⟨c, hwake, rfl⟩
    exact ⟨h.available, fun hregistered => Condition.wake_none_left hwake (h.connected hregistered)⟩
  | spuriousAvailable thread =>
    rcases Option.map_eq_some_iff.1 hstep with ⟨c, hwake, rfl⟩
    exact ⟨fun havailable hnotified =>
      Condition.wake_none_left hwake (h.available havailable hnotified), h.connected⟩
  | onServiceInstanceStatus isAvailable =>
    cases hstep
    exact h.onServiceInstanceStatus isAvailable
  | notifyAvailability change chosen =>
    dsimp only [BlockingWaits.step] at hstep
    split_ifs at hstep
    rcases Option.map_eq_some_iff.1 hstep with ⟨c, hnotify, rfl⟩
    exact h.notifyAvailability hone hnotify
  | onConnectionEvent isRegistered chosen =>
    rcases Option.map_eq_some_iff.1 hstep with ⟨c, hnotify, rfl⟩
    exact ⟨h.available, fun hregistered =>
      (Condition.notifyOne_none_left_iff hnotify).2 (hone hregistered)⟩
  | doDisconnect =>
    cases hstep
    exact ⟨h.available, nofun⟩

/-- With more than one thread, the notification leaves somebody behind. -/
theorem NoneLeft.oneAtMost {a : Action τ} {t : State τ} (hstep : BlockingWaits.step s a = some t)
    (h : NoneLeft t) : OneAtMost s a := by
  cases a with
  | notifyAvailability change chosen =>
    rintro havailable rfl
    dsimp only [BlockingWaits.step] at hstep
    split_ifs at hstep
    rcases Option.map_eq_some_iff.1 hstep with ⟨c, hnotify, rfl⟩
    exact (Condition.notifyOne_none_left_iff hnotify).1
      (h.available havailable (Finset.notMem_erase _ _))
  | onConnectionEvent isRegistered chosen =>
    intro hregistered
    rcases Option.map_eq_some_iff.1 hstep with ⟨c, hnotify, rfl⟩
    exact (Condition.notifyOne_none_left_iff hnotify).1 (h.connected hregistered)
  | _ => trivial

end Step

/-- Along a run nobody is left behind exactly if each notification that is to wake the waiting threads
    finds one of them at most. -/
theorem none_left_iff {τ : Type} [DecidableEq τ] (isRegistered : Bool)
    (availabilityStatus : AvailabilityStatus) (changes : ℕ) (pending : Finset ℕ)
    {as : List (Action τ)} {t : State τ}
    (hrun : run step (created isRegistered availabilityStatus changes pending) as = some t) :
    Along step NoneLeft (created isRegistered availabilityStatus changes pending) as ↔
      Meets step OneAtMost (created isRegistered availabilityStatus changes pending) as :=
  along_iff_meets hrun ⟨fun _ _ => rfl, fun _ => rfl⟩ (fun _ h => h)
    (fun _ _ _ h hone hstep => h.step hone hstep) fun _ _ _ _ hstep h => h.oneAtMost hstep

instance {τ : Type} (s : State τ) : (a : Action τ) → Decidable (OneAtMost s a)
  | .notifyAvailability _ _ => inferInstanceAs (Decidable (_ → _ → _))
  | .onConnectionEvent _ _ => inferInstanceAs (Decidable (_ → _))
  | .waitUntilConnected _ | .isAvailableBlocking _ | .recheckConnected _ | .lockAvailability _
  | .recheckAvailable _ | .spuriousConnected _ | .spuriousAvailable _ | .onServiceInstanceStatus _
  | .doDisconnect => inferInstanceAs (Decidable True)

/-- The thread waits for the connection and for the proxy. -/
theorem one_waiter_woken :
    Along step NoneLeft (created false .unknown 0 ∅)
      [.isAvailableBlocking 1, .onConnectionEvent true (some 1), .recheckConnected 1,
        .lockAvailability 1, .onServiceInstanceStatus true, .notifyAvailability 1 (some 1),
        .recheckAvailable 1] :=
  (none_left_iff false .unknown 0 ∅ rfl).2 (by decide)

/-- Two threads wait for the proxy, and one of them is woken. -/
theorem second_waiter_left :
    ¬ ∀ (isRegistered : Bool) (availabilityStatus : AvailabilityStatus) (changes : ℕ)
      (pending : Finset ℕ) (as : List (Action ℕ)) (t : State ℕ),
      run step (created isRegistered availabilityStatus changes pending) as = some t → NoneLeft t := by
  intro h
  have hnone := h true .unknown 0 ∅ [.isAvailableBlocking 1, .lockAvailability 1,
    .isAvailableBlocking 2, .lockAvailability 2, .onServiceInstanceStatus true,
    .notifyAvailability 1 (some 1)] _ rfl
  exact absurd (hnone.available rfl (by decide)) (by decide)

end SomeIPRuntime.BlockingWaits
