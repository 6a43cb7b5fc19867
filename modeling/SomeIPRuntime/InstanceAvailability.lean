import Mathlib.Data.List.AList
import Mathlib.Data.List.Chain
import SomeIPRuntime.Address
import SomeIPRuntime.ProxyStatus

set_option autoImplicit false

namespace SomeIPRuntime.InstanceAvailability
open StepSystems
open ProxyStatus (AvailabilityStatus)

/-- `vsomeip::ANY_INSTANCE` -/
def anyInstance : InstanceId := 0xffff

/-- `CommonAPI::Address` -/
structure CapiAddress where
  domain : String
  interface : String
  instance_ : String
  deriving DecidableEq, Repr

structure Observed where
  instanceId : InstanceId
  address : CapiAddress
  isAvailable : Bool
  told : Option AvailabilityStatus
  deriving DecidableEq, Repr

/-- What the connection is asked for, with the wildcard address of the service. -/
inductive Call
  | registerAvailabilityHandler
  | requestService
  | unregisterAvailabilityHandler (availabilityHandlerId : BitVec 32)
  | releaseService
  deriving DecidableEq, Repr

/-- `period` are the callbacks since the first listener has been added, the newest first. -/
structure State where
  instancesForward : AList fun _ : InstanceId => String
  instancesBackward : AList fun _ : String => InstanceId
  availabilityHandlerId : BitVec 32
  hasListeners : Bool
  calls : List Call
  period : List Observed

def created : State := ⟨∅, ∅, 0, false, [], []⟩

/-- The handler id is the one that the connection returns, the address the one that the translator
    makes of the instance. -/
inductive Action
  | onFirstListenerAdded (handlerId : BitVec 32)
  | onLastListenerRemoved
  | onServiceInstanceStatus (instanceId : InstanceId) (address : CapiAddress) (isAvailable : Bool)
  deriving DecidableEq, Repr

def addInstance (address : CapiAddress) (instanceId : InstanceId) (s : State) : Bool × State :=
  match s.instancesForward.lookup instanceId with
  | none =>
    (true, { s with
      instancesForward := s.instancesForward.insert instanceId address.instance_
      instancesBackward := s.instancesBackward.insert address.instance_ instanceId })
  | some _ => (false, s)

def removeInstance (address : CapiAddress) (instanceId : InstanceId) (s : State) : Bool × State :=
  match s.instancesForward.lookup instanceId with
  | some _ =>
    (true, { s with
      instancesForward := s.instancesForward.erase instanceId
      instancesBackward := s.instancesBackward.erase address.instance_ })
  | none => (false, s)

section Steps
variable (observedInterfaceName : String)

def Matching (instanceId : InstanceId) (address : CapiAddress) : Prop :=
  instanceId ≠ anyInstance ∧ address.interface = observedInterfaceName

instance (instanceId : InstanceId) (address : CapiAddress) :
    Decidable (Matching observedInterfaceName instanceId address) :=
  inferInstanceAs (Decidable (_ ∧ _))

/-- What `notifyListeners` is called with, if it is, and the state behind the callback. -/
def onServiceInstanceStatus (instanceId : InstanceId) (address : CapiAddress) (isAvailable : Bool)
    (s : State) : Option AvailabilityStatus × State :=
  if Matching observedInterfaceName instanceId address then
    if isAvailable then
      let added := addInstance address instanceId s
      (if added.1 then some .available else none, added.2)
    else
      let removed := removeInstance address instanceId s
      (if removed.1 then some .notAvailable else none, removed.2)
  else (none, s)

def onFirstListenerAdded (handlerId : BitVec 32) (s : State) : State :=
  { s with
    availabilityHandlerId := handlerId
    hasListeners := true
    calls := s.calls ++ [.registerAvailabilityHandler, .requestService]
    period := [] }

def onLastListenerRemoved (s : State) : State :=
  { s with
    hasListeners := false
    calls := s.calls ++ [.unregisterAvailabilityHandler s.availabilityHandlerId, .releaseService]
    period := [] }

def step (s : State) : Action → Option State
  | .onFirstListenerAdded handlerId =>
    if s.hasListeners then none else some (onFirstListenerAdded handlerId s)
  | .onLastListenerRemoved => if s.hasListeners then some (onLastListenerRemoved s) else none
  | .onServiceInstanceStatus instanceId address isAvailable =>
    let result := onServiceInstanceStatus observedInterfaceName instanceId address isAvailable s
    if s.hasListeners then
      some { result.2 with period := ⟨instanceId, address, isAvailable, result.1⟩ :: s.period }
    else some result.2

end Steps

def toldOf (instanceId : InstanceId) (period : List Observed) : List AvailabilityStatus :=
  period.filterMap fun o => if o.instanceId = instanceId then o.told else none

def Announced (instanceId : InstanceId) (period : List Observed) : Prop :=
  (toldOf instanceId period).head? = some .available

instance (instanceId : InstanceId) (period : List Observed) :
    Decidable (Announced instanceId period) := inferInstanceAs (Decidable (_ = _))

structure Lawful (observedInterfaceName : String) (period : List Observed) : Prop where
  available : ∀ o earlier, o :: earlier <:+ period →
    Matching observedInterfaceName o.instanceId o.address → o.isAvailable = true →
      ¬ Announced o.instanceId earlier → o.told = some .available
  notAvailable : ∀ o earlier, o :: earlier <:+ period → o.told = some .notAvailable →
    Announced o.instanceId earlier
  alternates : ∀ instanceId, (toldOf instanceId period).IsChain (· ≠ ·)

/-- An instance that a callback finds in the map has been announced in this period. -/
def Tracked (observedInterfaceName : String) (s : State) : Action → Prop
  | .onServiceInstanceStatus instanceId address _ =>
    s.hasListeners → Matching observedInterfaceName instanceId address →
      instanceId ∈ s.instancesForward → Announced instanceId s.period
  | _ => True

instance (observedInterfaceName : String) (s : State) :
    (a : Action) → Decidable (Tracked observedInterfaceName s a)
  | .onServiceInstanceStatus _ _ _ => inferInstanceAs (Decidable (_ → _ → _ → _))
  | .onFirstListenerAdded _ => inferInstanceAs (Decidable True)
  | .onLastListenerRemoved => inferInstanceAs (Decidable True)

section Callback
variable {name : String} {instanceId : InstanceId} {address : CapiAddress} {isAvailable : Bool}
  {s : State} {period : List Observed} {o : Observed}

inductive Told (name : String) (instanceId : InstanceId) (address : CapiAddress) (isAvailable : Bool)
    (s : State) : Option AvailabilityStatus × State → Prop
  | nothing (h : Matching name instanceId address →
      (isAvailable = true ↔ instanceId ∈ s.instancesForward)) :
    Told name instanceId address isAvailable s (none, s)
  | available (t : State) (hmatch : Matching name instanceId address) (havailable : isAvailable = true)
      (hnew : instanceId ∉ s.instancesForward)
      (hforward : ∀ i, i ∈ t.instancesForward ↔ i = instanceId ∨ i ∈ s.instancesForward)
      (hsame : t.hasListeners = s.hasListeners ∧ t.period = s.period) :
    Told name instanceId address isAvailable s (some .available, t)
  | notAvailable (t : State) (hmatch : Matching name instanceId address)
      (havailable : isAvailable = false) (hold : instanceId ∈ s.instancesForward)
      (hforward : ∀ i, i ∈ t.instancesForward ↔ i ≠ instanceId ∧ i ∈ s.instancesForward)
      (hsame : t.hasListeners = s.hasListeners ∧ t.period = s.period) :
    Told name instanceId address isAvailable s (some .notAvailable, t)

theorem onServiceInstanceStatus_told (name : String) (instanceId : InstanceId) (address : CapiAddress)
    (isAvailable : Bool) (s : State) :
    Told name instanceId address isAvailable s
      (onServiceInstanceStatus name instanceId address isAvailable s) := by
  unfold onServiceInstanceStatus
  split_ifs with hmatch havailable
  · unfold addInstance
    cases hlookup : s.instancesForward.lookup instanceId with
    | none =>
      have hnew := AList.lookup_eq_none.1 hlookup
      exact .available _ hmatch havailable hnew (fun i => AList.mem_insert _) ⟨rfl, rfl⟩
    | some found =>
      have hold := AList.lookup_isSome.1 (Option.isSome_of_eq_some hlookup)
      exact .nothing fun _ => iff_of_true havailable hold
  · unfold removeInstance
    cases hlookup : s.instancesForward.lookup instanceId with
    | none =>
      have hnew := AList.lookup_eq_none.1 hlookup
      exact .nothing fun _ => iff_of_false havailable hnew
    | some found =>
      have hold := AList.lookup_isSome.1 (Option.isSome_of_eq_some hlookup)
      exact .notAvailable _ hmatch (Bool.not_eq_true _ ▸ havailable) hold (fun i => AList.mem_erase)
        ⟨rfl, rfl⟩
  · exact .nothing fun h => absurd h hmatch

theorem toldOf_cons (i : InstanceId) (o : Observed) (earlier : List Observed) :
    toldOf i (o :: earlier) =
      (if o.instanceId = i then o.told else none).toList ++ toldOf i earlier := by
  unfold toldOf
  rw [List.filterMap_cons]
  cases (if o.instanceId = i then o.told else none) <;> rfl

theorem toldOf_silent (i : InstanceId) (earlier : List Observed) (h : o.told = none) :
    toldOf i (o :: earlier) = toldOf i earlier := by
  rw [toldOf_cons, h, ite_self]
  rfl

theorem toldOf_other {i : InstanceId} (earlier : List Observed) (h : o.instanceId ≠ i) :
    toldOf i (o :: earlier) = toldOf i earlier := by
  rw [toldOf_cons, if_neg h]
  rfl

theorem toldOf_told {status : AvailabilityStatus} (earlier : List Observed)
    (h : o.told = some status) :
    toldOf o.instanceId (o :: earlier) = status :: toldOf o.instanceId earlier := by
  rw [toldOf_cons, if_pos rfl, h]
  rfl

theorem lawful_nil (name : String) : Lawful name [] where
  available _ _ h := absurd (List.suffix_nil.1 h) (List.cons_ne_nil _ _)
  notAvailable _ _ h := absurd (List.suffix_nil.1 h) (List.cons_ne_nil _ _)
  alternates _ := .nil

theorem alternates_cons {earlier : List Observed} :
    (∀ i, (toldOf i (o :: earlier)).IsChain (· ≠ ·)) ↔ (∀ i, (toldOf i earlier).IsChain (· ≠ ·)) ∧
      ∀ status, o.told = some status → (toldOf o.instanceId earlier).head? ≠ some status := by
  constructor
  · intro h
    refine ⟨fun i => ?_, fun status htold hhead => ?_⟩
    · have hchain := h i
      rw [toldOf_cons] at hchain
      exact hchain.right_of_append
    · have hchain := h o.instanceId
      rw [toldOf_told earlier htold] at hchain
      exact hchain.rel_head? hhead rfl
  · rintro ⟨h, hdiffers⟩ i
    by_cases hi : o.instanceId = i
    · subst hi
      cases htold : o.told with
      | none =>
        rw [toldOf_silent _ _ htold]
        exact h o.instanceId
      | some status =>
        rw [toldOf_told _ htold]
        refine (h o.instanceId).cons ?_
        rintro first hfirst rfl
        exact hdiffers status htold hfirst
    · rw [toldOf_other _ hi]
      exact h i

theorem lawful_cons {earlier : List Observed} :
    Lawful name (o :: earlier) ↔ Lawful name earlier ∧
      (Matching name o.instanceId o.address → o.isAvailable = true →
        ¬ Announced o.instanceId earlier → o.told = some .available) ∧
      (o.told = some .notAvailable → Announced o.instanceId earlier) ∧
      ∀ status, o.told = some status → (toldOf o.instanceId earlier).head? ≠ some status := by
  constructor
  · intro h
    have hlater : ∀ {l}, l <:+ earlier → l <:+ o :: earlier := fun hl => hl.trans (List.suffix_cons _ _)
    rcases alternates_cons.1 h.alternates with ⟨halternates, hdiffers⟩
    exact ⟨⟨fun o' e he => h.available o' e (hlater he), fun o' e he => h.notAvailable o' e (hlater he),
      halternates⟩, h.available o earlier List.suffix_rfl, h.notAvailable o earlier List.suffix_rfl,
      hdiffers⟩
  · rintro ⟨h, havailable, hnotAvailable, hdiffers⟩
    refine ⟨fun o' e he => ?_, fun o' e he => ?_, alternates_cons.2 ⟨h.alternates, hdiffers⟩⟩
    · rcases List.suffix_cons_iff.1 he with hsame | he
      · cases hsame
        exact havailable
      · exact h.available o' e he
    · rcases List.suffix_cons_iff.1 he with hsame | he
      · cases hsame
        exact hnotAvailable
      · exact h.notAvailable o' e he

end Callback

structure Sound (name : String) (s : State) : Prop where
  announced : ∀ i, Announced i s.period → i ∈ s.instancesForward
  lawful : Lawful name s.period
  idle : s.hasListeners = false → s.period = []

section Runs
variable {name : String} {s t : State} {instanceId : InstanceId} {address : CapiAddress}
  {isAvailable : Bool} {told : Option AvailabilityStatus}

theorem sound_fresh (name : String) {s : State} (hperiod : s.period = []) : Sound name s := by
  refine ⟨fun i hi => ?_, ?_, fun _ => hperiod⟩
  · rw [hperiod] at hi
    cases hi
  · rw [hperiod]
    exact lawful_nil name

theorem Sound.observe (h : Sound name s) (hlisteners : s.hasListeners = true)
    (htold : Told name instanceId address isAvailable s (told, t))
    (htracked : Matching name instanceId address → instanceId ∈ s.instancesForward →
      Announced instanceId s.period) :
    Sound name { t with period := ⟨instanceId, address, isAvailable, told⟩ :: s.period } := by
  cases htold with
  | nothing hknown =>
    refine ⟨fun i hi => ?_, lawful_cons.2 ⟨h.lawful, fun hmatch havailable hnew => ?_, nofun, nofun⟩,
      fun hidle => ?_⟩
    · unfold Announced at hi
      rw [toldOf_silent i _ rfl] at hi
      exact h.announced i hi
    · exact absurd (htracked hmatch ((hknown hmatch).1 havailable)) hnew
    · rw [hlisteners] at hidle
      cases hidle
  | available _ hmatch havailable hnew hforward hsame =>
    refine ⟨fun i hi => (hforward i).2 ?_, lawful_cons.2 ⟨h.lawful, fun _ _ _ => rfl, nofun, ?_⟩,
      fun hidle => ?_⟩
    · by_cases hne : instanceId = i
      · exact Or.inl hne.symm
      · unfold Announced at hi
        rw [toldOf_other _ hne] at hi
        exact Or.inr (h.announced i hi)
    · rintro status hstatus hhead
      cases hstatus
      exact hnew (h.announced instanceId hhead)
    · rw [← hsame.1, hidle] at hlisteners
      cases hlisteners
  | notAvailable _ hmatch havailable hold hforward hsame =>
    have hannounced : (toldOf instanceId s.period).head? = some .available := htracked hmatch hold
    refine ⟨fun i hi => (hforward i).2 ?_,
      lawful_cons.2 ⟨h.lawful, fun _ htrue => ?_, fun _ => hannounced, ?_⟩, fun hidle => ?_⟩
    · unfold Announced at hi
      by_cases hne : instanceId = i
      · subst hne
        rw [toldOf_told s.period (o := ⟨instanceId, address, isAvailable, some .notAvailable⟩) rfl] at hi
        cases hi
      · rw [toldOf_other _ hne] at hi
        exact ⟨Ne.symm hne, h.announced i hi⟩
    · rw [havailable] at htrue
      cases htrue
    · rintro status hstatus hhead
      cases hstatus
      cases hannounced.symm.trans hhead
    · rw [← hsame.1, hidle] at hlisteners
      cases hlisteners

theorem Sound.unobserved (h : Sound name s) (hidle : s.hasListeners = false)
    (htold : Told name instanceId address isAvailable s (told, t)) : Sound name t := by
  have hperiod : t.period = [] := by
    cases htold with
    | nothing _ => exact h.idle hidle
    | available _ _ _ _ _ hsame => exact hsame.2.trans (h.idle hidle)
    | notAvailable _ _ _ _ _ hsame => exact hsame.2.trans (h.idle hidle)
  exact sound_fresh name hperiod

theorem Sound.step {a : Action} (h : Sound name s) (htracked : Tracked name s a)
    (hstep : InstanceAvailability.step name s a = some t) : Sound name t := by
  cases a with
  | onFirstListenerAdded handlerId =>
    unfold InstanceAvailability.step at hstep
    split_ifs at hstep
    cases hstep
    exact sound_fresh name rfl
  | onLastListenerRemoved =>
    unfold InstanceAvailability.step at hstep
    split_ifs at hstep
    cases hstep
    exact sound_fresh name rfl
  | onServiceInstanceStatus instanceId address isAvailable =>
    have htold := onServiceInstanceStatus_told name instanceId address isAvailable s
    unfold InstanceAvailability.step at hstep
    dsimp only at hstep
    split_ifs at hstep with hlisteners
    · cases hstep
      exact h.observe hlisteners htold (htracked hlisteners)
    · cases hstep
      exact h.unobserved (Bool.not_eq_true _ ▸ hlisteners) htold

/-- A callback about an instance that is in the map and has not been announced breaks the law: it is
    not told where it should be, or told where it should not be. -/
theorem Sound.tracked {a : Action} (hstep : InstanceAvailability.step name s a = some t)
    (hlawful : Lawful name t.period) : Tracked name s a := by
  cases a with
  | onFirstListenerAdded handlerId => trivial
  | onLastListenerRemoved => trivial
  | onServiceInstanceStatus instanceId address isAvailable =>
    intro hlisteners hmatch hmem
    have htold := onServiceInstanceStatus_told name instanceId address isAvailable s
    unfold InstanceAvailability.step at hstep
    dsimp only at hstep
    rw [if_pos hlisteners] at hstep
    cases hstep
    generalize onServiceInstanceStatus name instanceId address isAvailable s = result at htold hlawful
    rcases lawful_cons.1 hlawful with ⟨_, havailable, hnotAvailable, _⟩
    cases htold with
    | nothing hknown =>
      by_contra hnew
      cases havailable hmatch ((hknown hmatch).2 hmem) hnew
    | available _ _ _ hnew => exact absurd hmem hnew
    | notAvailable _ _ _ _ _ _ => exact hnotAvailable rfl

end Runs

/-- The law of the period holds all along a run exactly if no callback of a period finds an instance
    in the map that has not been announced in that period. -/
theorem periods_lawful_iff (name : String) {as : List Action} {t : State}
    (hrun : run (step name) created as = some t) :
    Along (step name) (fun s => Lawful name s.period) created as ↔
      Meets (step name) (Tracked name) created as :=
  along_iff_meets hrun (sound_fresh name rfl) (fun _ h => h.lawful)
    (fun _ _ _ h htracked hstep => h.step htracked hstep)
    fun _ _ _ _ hstep hlawful => Sound.tracked hstep hlawful

def sampleAddress : CapiAddress := ⟨"local", "interface", "instance"⟩

def twoPeriods : List Action :=
  [.onFirstListenerAdded 1, .onServiceInstanceStatus 5 sampleAddress true,
    .onServiceInstanceStatus 5 sampleAddress false, .onLastListenerRemoved,
    .onFirstListenerAdded 2, .onServiceInstanceStatus 5 sampleAddress true]

theorem twoPeriods_lawful :
    Along (step "interface") (fun s => Lawful "interface" s.period) created twoPeriods :=
  (periods_lawful_iff "interface" rfl).2 (by decide)

/-- The instance is still in the map when it is available again in the second period. -/
theorem second_period_untold :
    ¬ ∀ (name : String) (as : List Action) (t : State),
      run (step name) created as = some t → Lawful name t.period := by
  intro h
  have hlawful := h "interface" [.onFirstListenerAdded 1, .onServiceInstanceStatus 5 sampleAddress true,
    .onLastListenerRemoved, .onFirstListenerAdded 2, .onServiceInstanceStatus 5 sampleAddress true] _ rfl
  have htold := hlawful.available _ _ List.suffix_rfl (by decide) rfl (by decide)
  cases htold

end SomeIPRuntime.InstanceAvailability
