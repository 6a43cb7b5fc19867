import SomeIPRuntime.Address
import SomeIPRuntime.StepSystems

set_option autoImplicit false

/-!
# The events of a proxy

An `Event` requests its event when it is constructed and again for its first listener, and has a
handler at the connection while it has listeners. `ProxyBase` remembers the ids with handlers in one
set. The block on this set is one step, and each call to the connection behind it is another one.
-/
namespace SomeIPRuntime.ProxyEvents
open StepSystems

/-- The calls to the connection, without the service and the instance, which are those of the proxy. The
    handler of an event goes by its event; a null pointer is `none`. -/
inductive Call (ε : Type)
  | addEventHandler (eventGroup : EventgroupId) (event : EventId) (eventHandler : ε)
  | removeEventHandler (eventGroup : EventgroupId) (event : EventId) (eventHandler : Option ε)
  | requestEvent (event : EventId) (eventGroup : EventgroupId)
  | releaseEvent (event : EventId)
  deriving DecidableEq

inductive Phase
  | unborn
  | alive (listeners : Bool)
  | destroyed
  deriving DecidableEq, Repr

/-- What is fixed: the ids of the events, and the aliases that the configuration has for the proxy. -/
structure Names (ε : Type) where
  eventId : ε → EventId
  eventgroupId : ε → EventgroupId
  methodAlias : EventId → EventId
  eventgroupAlias : EventgroupId → EventgroupId

/-- `handler` says which events have made their handler. `calls` are those that a function of an event is
    still to make; `eventHandlers` is what the connection has, and `made` records the calls with the
    events that they were made for. -/
structure State (ε : Type) where
  phase : ε → Phase
  handler : ε → Bool
  eventHandlerAdded : Finset EventId
  calls : ε → List (Call ε)
  eventHandlers : Finset (EventId × ε)
  made : List (ε × Call ε)

def initial {ε : Type} : State ε := ⟨fun _ => .unborn, fun _ => false, ∅, fun _ => [], ∅, []⟩

inductive Action (ε : Type)
  | construct (e : ε)
  | onFirstListenerAdded (e : ε)
  | onLastListenerRemoved (e : ε)
  | destroy (e : ε)
  | call (e : ε)
  deriving DecidableEq

section Steps
variable {ε : Type} (names : Names ε)

def Names.id (e : ε) : EventId := names.methodAlias (names.eventId e)

def Names.group (e : ε) : EventgroupId := names.eventgroupAlias (names.eventgroupId e)

variable [DecidableEq ε]

/-- `ProxyBase::registerEvent` -/
def registerEvent (e : ε) : List (Call ε) := [.requestEvent (names.id e) (names.group e)]

/-- `ProxyBase::unregisterEvent` -/
def unregisterEvent (e : ε) : List (Call ε) := [.releaseEvent (names.id e)]

/-- The block of `ProxyBase::addEventHandler`, and the calls behind it. -/
def addEventHandler (e : ε) (s : State ε) : State ε :=
  { s with
    eventHandlerAdded := insert (names.id e) s.eventHandlerAdded
    calls := Function.update s.calls e
      [.addEventHandler (names.group e) (names.id e) e, .requestEvent (names.id e) (names.group e)] }

/-- The block of `ProxyBase::removeEventHandler`, and the calls behind it. -/
def removeEventHandler (e : ε) (s : State ε) : State ε :=
  if names.id e ∈ s.eventHandlerAdded then
    { s with
      eventHandlerAdded := s.eventHandlerAdded.erase (names.id e)
      calls := Function.update s.calls e [.releaseEvent (names.id e),
        .removeEventHandler (names.group e) (names.id e) (if s.handler e then some e else none)] }
  else s

def onFirstListenerAdded (e : ε) (s : State ε) : State ε :=
  addEventHandler names e { s with
    handler := Function.update s.handler e true
    phase := Function.update s.phase e (.alive true) }

def onLastListenerRemoved (e : ε) (s : State ε) : State ε :=
  removeEventHandler names e { s with phase := Function.update s.phase e (.alive false) }

/-- `Event::~Event` -/
def destroy (e : ε) (s : State ε) : State ε :=
  let t := removeEventHandler names e { s with phase := Function.update s.phase e .destroyed }
  { t with calls := Function.update t.calls e (t.calls e ++ unregisterEvent names e) }

def perform (eventHandlers : Finset (EventId × ε)) : Call ε → Finset (EventId × ε)
  | .addEventHandler _ event eventHandler => insert (event, eventHandler) eventHandlers
  | .removeEventHandler _ event (some eventHandler) => eventHandlers.erase (event, eventHandler)
  | .removeEventHandler _ _ none | .requestEvent _ _ | .releaseEvent _ => eventHandlers

def step (s : State ε) : Action ε → Option (State ε)
  | .construct e =>
    if s.phase e = .unborn then
      some { s with
        phase := Function.update s.phase e (.alive false)
        calls := Function.update s.calls e (registerEvent names e) }
    else none
  | .onFirstListenerAdded e =>
    if s.phase e = .alive false ∧ s.calls e = [] then some (onFirstListenerAdded names e s) else none
  | .onLastListenerRemoved e =>
    if s.phase e = .alive true ∧ s.calls e = [] then some (onLastListenerRemoved names e s) else none
  | .destroy e =>
    if (s.phase e = .alive false ∨ s.phase e = .alive true) ∧ s.calls e = [] then
      some (destroy names e s)
    else none
  | .call e =>
    match s.calls e with
    | call :: rest =>
      some { s with
        calls := Function.update s.calls e rest
        eventHandlers := perform s.eventHandlers call
        made := s.made ++ [(e, call)] }
    | [] => none

inductive Kind
  | addEventHandler
  | removeEventHandler
  | requestEvent
  | releaseEvent
  deriving DecidableEq

def Call.kind : Call ε → Kind
  | .addEventHandler _ _ _ => .addEventHandler
  | .removeEventHandler _ _ _ => .removeEventHandler
  | .requestEvent _ _ => .requestEvent
  | .releaseEvent _ => .releaseEvent

def Call.event : Call ε → EventId
  | .addEventHandler _ event _ | .removeEventHandler _ event _ | .requestEvent event _
  | .releaseEvent event => event

def Call.eventHandler : Call ε → Option ε
  | .addEventHandler _ _ eventHandler => some eventHandler
  | .removeEventHandler _ _ eventHandler => eventHandler
  | .requestEvent _ _ | .releaseEvent _ => none

def State.handled (s : State ε) (kind : Kind) (eventHandler : Option ε) : ℕ :=
  s.made.countP fun c => c.2.kind = kind ∧ c.2.eventHandler = eventHandler

def State.issued (s : State ε) (kind : Kind) (event : EventId) : ℕ :=
  s.made.countP fun c => c.2.kind = kind ∧ c.2.event = event

/-- What holds of an event is said where none of its functions is under way. -/
structure Balanced (s : State ε) : Prop where
  held : ∀ event e, s.calls e = [] →
    ((event, e) ∈ s.eventHandlers ↔ event = names.id e ∧ s.phase e = .alive true)
  matched : ∀ e, s.calls e = [] → s.handled .addEventHandler (some e) =
    s.handled .removeEventHandler (some e) + if s.phase e = .alive true then 1 else 0
  named : s.handled .removeEventHandler none = 0
  requested : (∀ e, s.phase e = .unborn ∨ s.phase e = .destroyed) → (∀ e, s.calls e = []) →
    ∀ event, s.issued .requestEvent event = s.issued .releaseEvent event

def AloneAt (s : State ε) (e : ε) : Prop :=
  ∀ other, other ≠ e → names.id other = names.id e → s.phase other ≠ .alive true

/-- An event gets its first listener, and is destroyed, while no other event of its id has listeners. -/
def Alone (s : State ε) : Action ε → Prop
  | .onFirstListenerAdded e | .destroy e => AloneAt names s e
  | .construct _ | .onLastListenerRemoved _ | .call _ => True

instance [Fintype ε] (s : State ε) (e : ε) : Decidable (AloneAt names s e) := by
  unfold AloneAt
  infer_instance

instance [Fintype ε] (s : State ε) (a : Action ε) : Decidable (Alone names s a) := by
  cases a <;> unfold Alone <;> infer_instance

end Steps

section Invariant
variable {ε : Type} [DecidableEq ε] {names : Names ε} {s t : State ε}

def Names.calls (names : Names ε) (e : ε) : List (Call ε) :=
  [.addEventHandler (names.group e) (names.id e) e,
    .removeEventHandler (names.group e) (names.id e) (some e),
    .requestEvent (names.id e) (names.group e), .releaseEvent (names.id e)]

def State.times (s : State ε) (kind : Kind) (e : ε) : ℕ :=
  s.made.countP (fun c => c.1 = e ∧ c.2.kind = kind) + (s.calls e).countP fun c => c.kind = kind

def Phase.requests : Phase → ℕ
  | .unborn | .destroyed => 0
  | .alive false => 1
  | .alive true => 2

structure GoodAt (names : Names ε) (s : State ε) (e : ε) : Prop where
  outstanding : ∀ c ∈ s.calls e, c ∈ names.calls e
  unborn : s.phase e = .unborn → s.calls e = []
  handler : s.phase e = .alive true → s.handler e = true
  held : ∀ event, (event, e) ∈ (s.calls e).foldl perform s.eventHandlers ↔
    event = names.id e ∧ s.phase e = .alive true
  matched : s.times .addEventHandler e =
    s.times .removeEventHandler e + if s.phase e = .alive true then 1 else 0
  requested : s.times .requestEvent e = s.times .releaseEvent e + (s.phase e).requests

structure Good (names : Names ε) (s : State ε) : Prop where
  events : ∀ e, GoodAt names s e
  made : ∀ c ∈ s.made, c.2 ∈ names.calls c.1
  added : ∀ event, event ∈ s.eventHandlerAdded ↔ ∃ e, names.id e = event ∧ s.phase e = .alive true
  single : ∀ e other, names.id other = names.id e → s.phase e = .alive true →
    s.phase other = .alive true → other = e

theorem initial_good : Good names (initial : State ε) where
  events e :=
    { outstanding := fun _ hc => absurd hc List.not_mem_nil
      unborn := fun _ => rfl
      handler := fun h => by simp [initial] at h
      held := fun event => by simp [initial]
      matched := by simp [initial, State.times]
      requested := by simp [initial, State.times, Phase.requests] }
  made _ hc := absurd hc List.not_mem_nil
  added event := by simp [initial]
  single _ _ _ h := by simp [initial] at h

theorem perform_other {c : Call ε} {e other : ε} (hc : c ∈ names.calls e) (hne : other ≠ e)
    (handlers : Finset (EventId × ε)) (event : EventId) :
    (event, other) ∈ perform handlers c ↔ (event, other) ∈ handlers := by
  simp only [Names.calls, List.mem_cons, List.not_mem_nil, or_false] at hc
  rcases hc with rfl | rfl | rfl | rfl
  · simp [perform, hne]
  · simp [perform, hne]
  · exact Iff.rfl
  · exact Iff.rfl

theorem mem_perform_congr {handlers others : Finset (EventId × ε)} {e : ε}
    (h : ∀ event, (event, e) ∈ handlers ↔ (event, e) ∈ others) (c : Call ε) (event : EventId) :
    (event, e) ∈ perform handlers c ↔ (event, e) ∈ perform others c := by
  cases c with
  | addEventHandler _ _ _ => simp [perform, h]
  | removeEventHandler _ _ eventHandler => cases eventHandler <;> simp [perform, h]
  | requestEvent _ _ => exact h event
  | releaseEvent _ => exact h event

theorem mem_performAll_congr {handlers others : Finset (EventId × ε)} {e : ε}
    (h : ∀ event, (event, e) ∈ handlers ↔ (event, e) ∈ others) (cs : List (Call ε)) (event : EventId) :
    (event, e) ∈ cs.foldl perform handlers ↔ (event, e) ∈ cs.foldl perform others := by
  induction cs generalizing handlers others with
  | nil => exact h event
  | cons c cs ih => exact ih (mem_perform_congr h c)

def State.call (s : State ε) (e : ε) (c : Call ε) (rest : List (Call ε)) : State ε :=
  { s with
    calls := Function.update s.calls e rest
    eventHandlers := perform s.eventHandlers c
    made := s.made ++ [(e, c)] }

variable {e : ε} {c : Call ε} {rest : List (Call ε)}

theorem times_call (hcalls : s.calls e = c :: rest) (kind : Kind) (other : ε) :
    (s.call e c rest).times kind other = s.times kind other := by
  unfold State.times State.call
  dsimp only
  rw [List.countP_append, List.countP_singleton]
  by_cases hsame : other = e
  · subst hsame
    rw [Function.update_self, hcalls, List.countP_cons]
    simp only [true_and, decide_eq_true_eq]
    omega
  · rw [Function.update_of_ne hsame]
    simp [Ne.symm hsame]

theorem GoodAt.call {other : ε} (h : GoodAt names s other) (hcalls : s.calls e = c :: rest)
    (hown : c ∈ names.calls e) : GoodAt names (s.call e c rest) other where
  outstanding d hd := by
    apply h.outstanding d
    by_cases hsame : other = e
    · subst hsame
      simp only [State.call, Function.update_self] at hd
      rw [hcalls]
      exact List.mem_cons_of_mem _ hd
    · simpa only [State.call, Function.update_of_ne hsame] using hd
  unborn hunborn := by
    have hnone : s.calls other = [] := h.unborn hunborn
    have hne : other ≠ e := by
      rintro rfl
      rw [hcalls] at hnone
      cases hnone
    simpa only [State.call, Function.update_of_ne hne] using hnone
  handler := h.handler
  held event := by
    refine Iff.trans ?_ (h.held event)
    by_cases hsame : other = e
    · subst hsame
      simp only [State.call, Function.update_self, hcalls, List.foldl_cons]
    · simp only [State.call, Function.update_of_ne hsame]
      exact mem_performAll_congr (perform_other hown hsame s.eventHandlers) _ event
  matched := by
    rw [times_call hcalls, times_call hcalls]
    exact h.matched
  requested := by
    rw [times_call hcalls, times_call hcalls]
    exact h.requested

theorem Good.call (h : Good names s) (hcalls : s.calls e = c :: rest) :
    Good names (s.call e c rest) := by
  have hown : c ∈ names.calls e :=
    (h.events e).outstanding c (by rw [hcalls]; exact List.mem_cons_self)
  refine { h with events := fun other => (h.events other).call hcalls hown, made := fun d hd => ?_ }
  rcases List.mem_append.1 hd with hd | hd
  · exact h.made d hd
  · rw [List.mem_singleton.1 hd]
    exact hown

theorem GoodAt.same {other : ε} (h : GoodAt names s other) (hphase : t.phase other = s.phase other)
    (hhandler : t.handler other = s.handler other) (hcalls : t.calls other = s.calls other)
    (hhandlers : t.eventHandlers = s.eventHandlers) (hmade : t.made = s.made) :
    GoodAt names t other where
  outstanding := by
    rw [hcalls]
    exact h.outstanding
  unborn := by
    rw [hphase, hcalls]
    exact h.unborn
  handler := by
    rw [hphase, hhandler]
    exact h.handler
  held := by
    rw [hcalls, hphase, hhandlers]
    exact h.held
  matched := by
    unfold State.times
    rw [hcalls, hphase, hmade]
    exact h.matched
  requested := by
    unfold State.times
    rw [hcalls, hphase, hmade]
    exact h.requested

/-- What a function of an event, with its calls, makes of it. -/
theorem GoodAt.function (h : GoodAt names s e) (hidle : s.calls e = [])
    (hhandlers : t.eventHandlers = s.eventHandlers) (hmade : t.made = s.made)
    (hborn : t.phase e ≠ .unborn) (houtstanding : ∀ c ∈ t.calls e, c ∈ names.calls e)
    (hhandler : t.phase e = .alive true → t.handler e = true)
    (hheld : ∀ event, (event, e) ∈ (t.calls e).foldl perform s.eventHandlers ↔
      event = names.id e ∧ t.phase e = .alive true)
    (hmatched : ((t.calls e).countP fun c => c.kind = .addEventHandler) +
        (if s.phase e = .alive true then 1 else 0) =
      ((t.calls e).countP fun c => c.kind = .removeEventHandler) +
        if t.phase e = .alive true then 1 else 0)
    (hrequested : ((t.calls e).countP fun c => c.kind = .requestEvent) + (s.phase e).requests =
      ((t.calls e).countP fun c => c.kind = .releaseEvent) + (t.phase e).requests) :
    GoodAt names t e where
  outstanding := houtstanding
  unborn hunborn := absurd hunborn hborn
  handler := hhandler
  held := by
    rw [hhandlers]
    exact hheld
  matched := by
    have hold := h.matched
    unfold State.times at hold ⊢
    rw [hidle, List.countP_nil, List.countP_nil] at hold
    rw [hmade]
    omega
  requested := by
    have hold := h.requested
    unfold State.times at hold ⊢
    rw [hidle, List.countP_nil, List.countP_nil] at hold
    rw [hmade]
    omega

structure Frame (e : ε) (s t : State ε) : Prop where
  phase : ∀ other, other ≠ e → t.phase other = s.phase other
  handler : ∀ other, other ≠ e → t.handler other = s.handler other
  calls : ∀ other, other ≠ e → t.calls other = s.calls other
  eventHandlers : t.eventHandlers = s.eventHandlers
  made : t.made = s.made

theorem Frame.events (h : Frame e s t) (hevents : ∀ e, GoodAt names s e) (he : GoodAt names t e)
    (other : ε) : GoodAt names t other := by
  by_cases hsame : other = e
  · subst hsame
    exact he
  · exact (hevents other).same (h.phase other hsame) (h.handler other hsame) (h.calls other hsame)
      h.eventHandlers h.made

/-- A function of an event that has no listeners before and after it. -/
theorem Good.quiet (h : Good names s) (hframe : Frame e s t) (he : GoodAt names t e)
    (hbefore : s.phase e ≠ .alive true) (hafter : t.phase e ≠ .alive true)
    (hadded : t.eventHandlerAdded = s.eventHandlerAdded) : Good names t := by
  have hsame : ∀ other, t.phase other = .alive true ↔ s.phase other = .alive true := by
    intro other
    by_cases hother : other = e
    · subst hother
      exact iff_of_false hafter hbefore
    · rw [hframe.phase other hother]
  refine ⟨hframe.events h.events he, ?_, fun event => ?_, fun one other hid hone hother => ?_⟩
  · rw [hframe.made]
    exact h.made
  · simp only [hadded, h.added, hsame]
  · exact h.single one other hid ((hsame one).1 hone) ((hsame other).1 hother)

theorem Good.leave (h : Good names s) (hframe : Frame e s t) (he : GoodAt names t e)
    (hbefore : s.phase e = .alive true) (hafter : t.phase e ≠ .alive true)
    (hadded : t.eventHandlerAdded = s.eventHandlerAdded.erase (names.id e)) : Good names t := by
  have hothers : ∀ other, t.phase other = .alive true ↔ other ≠ e ∧ s.phase other = .alive true := by
    intro other
    by_cases hother : other = e
    · subst hother
      exact iff_of_false hafter fun h => h.1 rfl
    · rw [hframe.phase other hother]
      exact ⟨fun h => ⟨hother, h⟩, And.right⟩
  refine ⟨hframe.events h.events he, ?_, fun event => ?_, fun one other hid hone hother => ?_⟩
  · rw [hframe.made]
    exact h.made
  · rw [hadded, Finset.mem_erase, h.added]
    constructor
    · rintro ⟨hne, other, hid, hother⟩
      exact ⟨other, hid, (hothers other).2 ⟨fun heq => hne (by rw [← hid, heq]), hother⟩⟩
    · rintro ⟨other, hid, hother⟩
      rcases (hothers other).1 hother with ⟨hne, hlistens⟩
      refine ⟨fun heq => hne ?_, other, hid, hlistens⟩
      exact h.single e other (hid.trans heq) hbefore hlistens
  · exact h.single one other hid ((hothers one).1 hone).2 ((hothers other).1 hother).2

theorem Good.join (h : Good names s) (hframe : Frame e s t) (he : GoodAt names t e)
    (halone : AloneAt names s e) (hafter : t.phase e = .alive true)
    (hadded : t.eventHandlerAdded = insert (names.id e) s.eventHandlerAdded) : Good names t := by
  have hothers : ∀ other, other ≠ e → t.phase other = .alive true →
      names.id other ≠ names.id e ∧ s.phase other = .alive true := by
    intro other hne hother
    rw [hframe.phase other hne] at hother
    exact ⟨fun hid => halone other hne hid hother, hother⟩
  refine ⟨hframe.events h.events he, ?_, fun event => ?_, fun one other hid hone hother => ?_⟩
  · rw [hframe.made]
    exact h.made
  · rw [hadded, Finset.mem_insert, h.added]
    constructor
    · rintro (rfl | ⟨other, hid, hother⟩)
      · exact ⟨e, rfl, hafter⟩
      · by_cases hsame : other = e
        · exact ⟨e, by rw [← hid, hsame], hafter⟩
        · exact ⟨other, hid, (hframe.phase other hsame).trans hother⟩
    · rintro ⟨other, rfl, hother⟩
      by_cases hsame : other = e
      · exact Or.inl (by rw [hsame])
      · exact Or.inr ⟨other, rfl, (hothers other hsame hother).2⟩
  · by_cases hone' : one = e
    · by_contra hne
      subst hone'
      exact (hothers other hne hother).1 hid
    · have hlistens := hothers one hone' hone
      by_cases hother' : other = e
      · subst hother'
        exact absurd hid.symm hlistens.1
      · exact h.single one other hid hlistens.2 (hothers other hother' hother).2

theorem GoodAt.holds (h : GoodAt names s e) (hidle : s.calls e = []) (event : EventId) :
    (event, e) ∈ s.eventHandlers ↔ event = names.id e ∧ s.phase e = .alive true := by
  have hheld := h.held event
  rwa [hidle] at hheld

theorem Good.construct (h : Good names s) (hunborn : s.phase e = .unborn) :
    Good names { s with
      phase := Function.update s.phase e (.alive false)
      calls := Function.update s.calls e (registerEvent names e) } := by
  have hidle := (h.events e).unborn hunborn
  refine h.quiet (e := e) ?_ ?_ (by rw [hunborn]; decide) (by simp) rfl
  · constructor <;> intros <;> simp [*]
  · refine (h.events e).function hidle rfl rfl (by simp) ?_ ?_ ?_ ?_ ?_
    · simp [registerEvent, Names.calls]
    · simp
    · intro event
      simp [registerEvent, perform, (h.events e).holds hidle, hunborn]
    · simp [registerEvent, Call.kind, hunborn]
    · simp [registerEvent, Call.kind, hunborn, Phase.requests]

theorem Good.onFirstListenerAdded (h : Good names s) (hquiet : s.phase e = .alive false)
    (hidle : s.calls e = []) (halone : AloneAt names s e) :
    Good names (onFirstListenerAdded names e s) := by
  unfold ProxyEvents.onFirstListenerAdded addEventHandler
  refine h.join (e := e) ?_ ?_ halone (by simp) rfl
  · constructor <;> intros <;> simp [*]
  · refine (h.events e).function hidle rfl rfl (by simp) ?_ ?_ ?_ ?_ ?_
    · simp [Names.calls]
    · simp
    · intro event
      simp [perform, (h.events e).holds hidle, hquiet]
    · simp [Call.kind, hquiet]
    · simp [Call.kind, hquiet, Phase.requests]

theorem Good.removeEventHandler (h : Good names s) (hlistens : s.phase e = .alive true) (phase : Phase) :
    removeEventHandler names e { s with phase := Function.update s.phase e phase } =
      { s with
        phase := Function.update s.phase e phase
        eventHandlerAdded := s.eventHandlerAdded.erase (names.id e)
        calls := Function.update s.calls e [.releaseEvent (names.id e),
          .removeEventHandler (names.group e) (names.id e) (some e)] } := by
  have hmem : names.id e ∈ s.eventHandlerAdded := (h.added _).2 ⟨e, rfl, hlistens⟩
  have hhandler := (h.events e).handler hlistens
  unfold ProxyEvents.removeEventHandler
  rw [if_pos hmem, if_pos hhandler]

theorem Good.onLastListenerRemoved (h : Good names s) (hlistens : s.phase e = .alive true)
    (hidle : s.calls e = []) : Good names (onLastListenerRemoved names e s) := by
  unfold ProxyEvents.onLastListenerRemoved
  rw [h.removeEventHandler hlistens]
  refine h.leave (e := e) ?_ ?_ hlistens (by simp) rfl
  · constructor <;> intros <;> simp [*]
  · refine (h.events e).function hidle rfl rfl (by simp) ?_ ?_ ?_ ?_ ?_
    · simp [Names.calls]
    · simp
    · intro event
      simp [perform, (h.events e).holds hidle, hlistens]
    · simp [Call.kind, hlistens]
    · simp [Call.kind, hlistens, Phase.requests]

/-- Without other listeners the id of the event is not in the set, and only its first request is
    released. -/
theorem Good.destroy_quiet (h : Good names s) (hquiet : s.phase e = .alive false)
    (hidle : s.calls e = []) (halone : AloneAt names s e) : Good names (destroy names e s) := by
  have hmem : names.id e ∉ s.eventHandlerAdded := by
    intro hmem
    rcases (h.added _).1 hmem with ⟨other, hid, hother⟩
    by_cases hsame : other = e
    · rw [hsame, hquiet] at hother
      cases hother
    · exact halone other hsame hid hother
  unfold destroy ProxyEvents.removeEventHandler
  rw [if_neg hmem]
  refine h.quiet (e := e) ?_ ?_ (by rw [hquiet]; decide) (by simp) rfl
  · constructor <;> intros <;> simp [*]
  · refine (h.events e).function hidle rfl rfl (by simp) ?_ ?_ ?_ ?_ ?_
    · simp [hidle, unregisterEvent, Names.calls]
    · simp
    · intro event
      simp [hidle, unregisterEvent, perform, (h.events e).holds hidle, hquiet]
    · simp [hidle, unregisterEvent, Call.kind, hquiet]
    · simp [hidle, unregisterEvent, Call.kind, hquiet, Phase.requests]

theorem Good.destroy_listening (h : Good names s) (hlistens : s.phase e = .alive true)
    (hidle : s.calls e = []) : Good names (destroy names e s) := by
  unfold destroy
  rw [h.removeEventHandler hlistens]
  refine h.leave (e := e) ?_ ?_ hlistens (by simp) rfl
  · constructor <;> intros <;> simp [*]
  · refine (h.events e).function hidle rfl rfl (by simp) ?_ ?_ ?_ ?_ ?_
    · simp [unregisterEvent, Names.calls]
    · simp
    · intro event
      simp [unregisterEvent, perform, (h.events e).holds hidle, hlistens]
    · simp [unregisterEvent, Call.kind, hlistens]
    · simp [unregisterEvent, Call.kind, hlistens, Phase.requests]

theorem step_good (a : Action ε) (h : Good names s) (hok : Alone names s a)
    (hstep : step names s a = some t) : Good names t := by
  cases a with
  | construct e =>
    rcases Option.ite_none_right_eq_some.1 hstep with ⟨hunborn, ⟨⟩⟩
    exact h.construct hunborn
  | onFirstListenerAdded e =>
    rcases Option.ite_none_right_eq_some.1 hstep with ⟨⟨hquiet, hidle⟩, ⟨⟩⟩
    exact h.onFirstListenerAdded hquiet hidle hok
  | onLastListenerRemoved e =>
    rcases Option.ite_none_right_eq_some.1 hstep with ⟨⟨hlistens, hidle⟩, ⟨⟩⟩
    exact h.onLastListenerRemoved hlistens hidle
  | destroy e =>
    rcases Option.ite_none_right_eq_some.1 hstep with ⟨⟨hquiet | hlistens, hidle⟩, ⟨⟩⟩
    · exact h.destroy_quiet hquiet hidle hok
    · exact h.destroy_listening hlistens hidle
  | call e =>
    simp only [step] at hstep
    split at hstep
    · rename_i c rest hcalls
      cases hstep
      exact h.call hcalls
    · cases hstep

omit [DecidableEq ε] in
theorem kind_removeEventHandler {c : Call ε} (hown : c ∈ names.calls e)
    (hkind : c.kind = .removeEventHandler) : c.eventHandler = some e := by
  simp only [Names.calls, List.mem_cons, List.not_mem_nil, or_false] at hown
  rcases hown with rfl | rfl | rfl | rfl
  · cases hkind
  · rfl
  · cases hkind
  · cases hkind

omit [DecidableEq ε] in
theorem kind_addEventHandler {c : Call ε} (hown : c ∈ names.calls e)
    (hkind : c.kind = .addEventHandler) : c.eventHandler = some e := by
  simp only [Names.calls, List.mem_cons, List.not_mem_nil, or_false] at hown
  rcases hown with rfl | rfl | rfl | rfl
  · rfl
  · cases hkind
  · cases hkind
  · cases hkind

omit [DecidableEq ε] in
theorem event_eq {c : Call ε} (hown : c ∈ names.calls e) : c.event = names.id e := by
  simp only [Names.calls, List.mem_cons, List.not_mem_nil, or_false] at hown
  rcases hown with rfl | rfl | rfl | rfl <;> rfl

theorem Good.handled_eq (h : Good names s) {kind : Kind}
    (hkind : ∀ e, ∀ c ∈ names.calls e, c.kind = kind → c.eventHandler = some e)
    (hidle : s.calls e = []) : s.handled kind (some e) = s.times kind e := by
  unfold State.handled State.times
  rw [hidle, List.countP_nil, Nat.add_zero]
  apply List.countP_congr
  intro c hc
  have hhandler := hkind c.1 c.2 (h.made c hc)
  simp only [decide_eq_true_eq]
  constructor
  · rintro ⟨hc', he⟩
    exact ⟨Option.some.inj ((hhandler hc').symm.trans he), hc'⟩
  · rintro ⟨rfl, hc'⟩
    exact ⟨hc', hhandler hc'⟩

def State.issuers (s : State ε) (kind : Kind) : List ε :=
  (s.made.filter fun c => c.2.kind = kind).map Prod.fst

theorem count_issuers (hidle : s.calls e = []) (kind : Kind) :
    (s.issuers kind).count e = s.times kind e := by
  unfold State.issuers State.times
  rw [hidle, List.countP_nil, Nat.add_zero, List.count_eq_countP, List.countP_map, List.countP_filter]
  apply List.countP_congr
  intro c _
  simp

theorem Good.issued_eq (h : Good names s) (kind : Kind) (event : EventId) :
    s.issued kind event = (s.issuers kind).countP fun e => names.id e = event := by
  unfold State.issued State.issuers
  rw [List.countP_map, List.countP_filter]
  apply List.countP_congr
  intro c hc
  rw [event_eq (h.made c hc)]
  simp [and_comm]

theorem Good.balanced (h : Good names s) : Balanced names s where
  held event e hidle := (h.events e).holds hidle event
  matched e hidle := by
    rw [h.handled_eq (fun _ _ => kind_addEventHandler) hidle,
      h.handled_eq (fun _ _ => kind_removeEventHandler) hidle]
    exact (h.events e).matched
  named := by
    apply List.countP_eq_zero.2
    intro c hc hnone
    rcases of_decide_eq_true hnone with ⟨hkind, hnone⟩
    rw [kind_removeEventHandler (h.made c hc) hkind] at hnone
    cases hnone
  requested hgone hidle event := by
    rw [h.issued_eq, h.issued_eq]
    apply List.Perm.countP_eq
    apply List.perm_iff_count.2
    intro e
    rw [count_issuers (hidle e), count_issuers (hidle e), (h.events e).requested]
    rcases hgone e with hphase | hphase <;> rw [hphase] <;> rfl

/-- In every run in which an event gets its first listener and is destroyed only while no other event
    of its id has listeners, the calls to the connection are balanced. -/
theorem events_balanced (h : Reachable (step names) (Alone names) initial s) : Balanced names s :=
  (h.invariant initial_good fun _ a _ => step_good a).balanced

end Invariant

def oneId : Names Bool := ⟨fun _ => 0x8001, fun _ => 1, id, id⟩

def inTurn : List (Action Bool) :=
  [.construct false, .construct true, .call true, .call false,
    .onFirstListenerAdded true, .call true, .call true,
    .onLastListenerRemoved true, .onFirstListenerAdded false, .call false, .call true, .call true,
    .call false, .onLastListenerRemoved false, .destroy true, .call true, .call false, .call false,
    .destroy false, .call false]

theorem in_turn_balanced : ∃ s, run (step oneId) initial inTurn = some s ∧ Balanced oneId s := by
  exact ⟨_, rfl, events_balanced (.of_run inTurn (by decide) rfl)⟩

def atOnce : List (Action Bool) :=
  [.construct false, .construct true, .call true, .call false,
    .onFirstListenerAdded true, .call true, .call true,
    .onFirstListenerAdded false, .call false, .call false,
    .onLastListenerRemoved true, .call true, .call true, .onLastListenerRemoved false]

theorem second_handler_stays :
    ¬ ∀ s, Reachable (step oneId) Free initial s → Balanced oneId s := by
  intro h
  have hkept : ∃ s ∈ run (step oneId) initial atOnce, s.calls false = [] ∧
      s.phase false = .alive false ∧ (0x8001, false) ∈ s.eventHandlers := by
    exact ⟨_, rfl, by decide⟩
  rcases hkept with ⟨s, hs, hidle, hphase, hheld⟩
  have hlistens := (((h s (reachable_of_run hs)).held 0x8001 false hidle).1 hheld).2
  rw [hphase] at hlistens
  cases hlistens

end SomeIPRuntime.ProxyEvents
