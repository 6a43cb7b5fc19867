import SomeIPRuntime.Broadcasts
import SomeIPRuntime.EventListeners
import SomeIPRuntime.EventSubscriptions

set_option autoImplicit false

/-!
# The distribution of events

A connection hands each notification to the handlers of its event, either at once or when the main loop
dispatches it. `handleProxyReceive` copies the handlers under `eventHandlerMutex_` and calls them
without it, while other threads add and remove handlers, and proxies go.
-/
namespace SomeIPRuntime.EventDistribution
open Deployment
open StepSystems Broadcasts Serialization TypedValues
open EventSubscriptions (Event)

def eventOf (message : VsomeipMessage) : Event := (message.service, message.instance_, message.method)

def IsOf (event : Event) (message : VsomeipMessage) : Prop := eventOf message = event

instance (event : Event) : DecidablePred (IsOf event) := fun message =>
  inferInstanceAs (Decidable (eventOf message = event))

/-- The queue of the channel has the notifications that the main loop is to dispatch. `expired` are the
    handlers that can no longer be locked. -/
structure State (η : Type) where
  subscriptions : EventSubscriptions.State η
  expired : Finset η
  channel : Channel Event η VsomeipMessage

def initial {η : Type} : State η := ⟨EventSubscriptions.initial, ∅, Channel.initial⟩

inductive Action (η : Type)
  | subscription (action : EventSubscriptions.Action η)
  | expire (eventHandler : η)
  | receive (message : VsomeipMessage) (isMainLoop : Bool)
  | dispatch
  | onEventMessage (i : ℕ)

section Steps
variable {η : Type} [LinearOrder η]

def handleProxyReceive (message : VsomeipMessage) (s : State η) : State η :=
  let handlers := (s.subscriptions.eventHandlers (eventOf message)).sort (· ≤ ·)
  { s with channel := s.channel.pass handlers message }

def receive (message : VsomeipMessage) (isMainLoop : Bool) (s : State η) : State η :=
  let s := { s with channel := s.channel.enter IsOf message }
  if isMainLoop then { s with channel := s.channel.push message } else handleProxyReceive message s

def State.joining (s : State η) : EventSubscriptions.Action η → Option (Event × η)
  | .addEventHandler event _ (some eventHandler) =>
    if eventHandler ∈ s.subscriptions.eventHandlers event then none else some (event, eventHandler)
  | _ => none

def step (s : State η) : Action η → Option (State η)
  | .subscription action =>
    (EventSubscriptions.step s.subscriptions action).map fun subscriptions =>
      { s with
        subscriptions := subscriptions
        channel := (s.joining action).elim s.channel fun joining => s.channel.join joining.1 joining.2 }
  | .expire eventHandler => some { s with expired := insert eventHandler s.expired }
  | .receive message isMainLoop =>
    if message.messageType = .notification then some (receive message isMainLoop s) else none
  | .dispatch =>
    match s.channel.queue with
    | message :: rest => some (handleProxyReceive message { s with channel := { s.channel with queue := rest } })
    | [] => none
  | .onEventMessage i =>
    (s.channel.tell (fun eventHandler => eventHandler ∉ s.expired) i).map fun channel => { s with channel := channel }

/-- A notification does not overtake those that the main loop still has, and a handler is called in the
    order in which it was copied. -/
def InOrder (s : State η) : Action η → Prop
  | .receive _ isMainLoop => isMainLoop = false → s.channel.queue = []
  | .onEventMessage i => s.channel.IsTurn i
  | _ => True

instance (s : State η) : (a : Action η) → Decidable (InOrder s a)
  | .receive _ isMainLoop => inferInstanceAs (Decidable (isMainLoop = false → s.channel.queue = []))
  | .onEventMessage i => inferInstanceAs (Decidable (s.channel.IsTurn i))
  | .subscription _ | .expire _ | .dispatch => .isTrue trivial

def Action.IsOwn : Action η → Prop
  | .dispatch | .onEventMessage _ => True
  | _ => False

/-- The handler has been added to the event and is still there. -/
def State.Added (s : State η) (event : Event) (eventHandler : η) : Prop :=
  eventHandler ∈ s.subscriptions.eventHandlers event ∧ eventHandler ∉ s.expired

instance (s : State η) (event : Event) (eventHandler : η) : Decidable (s.Added event eventHandler) :=
  inferInstanceAs (Decidable (_ ∧ _))

def State.handed (s : State η) (event : Event) (eventHandler : η) : List VsomeipMessage :=
  forSubscriber IsOf event eventHandler s.channel.told

end Steps

section Invariant
variable {η : Type} [LinearOrder η] {s t : State η}

theorem removeEventHandler_handlers (subscriptions : EventSubscriptions.State η) (event : Event)
    (eventGroup : EventgroupId) (eventHandler : η) :
    (EventSubscriptions.removeEventHandler event eventGroup eventHandler subscriptions).eventHandlers =
      Function.update subscriptions.eventHandlers event ((subscriptions.eventHandlers event).erase eventHandler) := by
  unfold EventSubscriptions.removeEventHandler
  dsimp only
  split
  · rename_i hlast
    rw [hlast.2]
  · rfl

/-- Nobody but who is added comes to be a handler of an event. -/
theorem added_handlers {action : EventSubscriptions.Action η} {subscriptions : EventSubscriptions.State η}
    (h : EventSubscriptions.step s.subscriptions action = some subscriptions) {event : Event} {eventHandler : η}
    (hmem : eventHandler ∈ subscriptions.eventHandlers event) :
    s.joining action = some (event, eventHandler) ∨ eventHandler ∈ s.subscriptions.eventHandlers event := by
  cases action with
  | addEventHandler other eventGroup handler =>
    cases h
    cases handler with
    | none => exact Or.inr hmem
    | some itsHandler =>
      change eventHandler ∈ Function.update s.subscriptions.eventHandlers other
        (insert itsHandler (s.subscriptions.eventHandlers other)) event at hmem
      by_cases hevent : event = other
      · subst hevent
        rw [Function.update_self, Finset.mem_insert] at hmem
        rcases hmem with rfl | hold
        · by_cases hthere : eventHandler ∈ s.subscriptions.eventHandlers event
          · exact Or.inr hthere
          · exact Or.inl (if_neg hthere)
        · exact Or.inr hold
      · rw [Function.update_of_ne hevent] at hmem
        exact Or.inr hmem
  | removeEventHandler other eventGroup handler =>
    cases h
    right
    rw [removeEventHandler_handlers] at hmem
    by_cases hevent : event = other
    · subst hevent
      rw [Function.update_self] at hmem
      exact Finset.mem_of_mem_erase hmem
    · rw [Function.update_of_ne hevent] at hmem
      exact hmem
  | subscribe other eventGroup handler tag major =>
    cases h
    right
    unfold EventSubscriptions.subscribe at hmem
    rw [EventSubscriptions.insertListener_frame] at hmem
    exact hmem
  | call other eventGroup major =>
    unfold EventSubscriptions.step at h
    dsimp only at h
    split at h
    · cases h
      exact Or.inr hmem
    · cases h

def Sound (s : State η) : Prop := Faithful IsOf s.Added s.channel

theorem copied (s : State η) (message : VsomeipMessage) (event : Event) (eventHandler : η)
    (h : s.Added event eventHandler) (hevent : IsOf event message) :
    eventHandler ∈ (s.subscriptions.eventHandlers (eventOf message)).sort (· ≤ ·) :=
  (Finset.mem_sort _).2 (hevent.symm ▸ h.1)

theorem step_sound {a : Action η} (h : Sound s) (hok : InOrder s a) (hstep : step s a = some t) : Sound t := by
  cases a with
  | subscription action =>
    rcases Option.map_eq_some_iff.1 hstep with ⟨subscriptions, hrun, rfl⟩
    cases hjoining : s.joining action with
    | none =>
      refine Faithful.mono h fun event eventHandler hadded => ⟨?_, hadded.2⟩
      rcases added_handlers hrun hadded.1 with hjoin | hold
      · cases hjoining.symm.trans hjoin
      · exact hold
    | some joining =>
      refine Faithful.join h fun event eventHandler hadded => ?_
      rcases added_handlers hrun hadded.1 with hjoin | hold
      · cases hjoining.symm.trans hjoin
        exact Or.inl ⟨rfl, rfl⟩
      · exact Or.inr ⟨hold, hadded.2⟩
  | expire eventHandler =>
    cases hstep
    exact Faithful.mono h fun _ _ hadded => ⟨hadded.1, fun hmem => hadded.2 (Finset.mem_insert_of_mem hmem)⟩
  | receive message isMainLoop =>
    unfold step at hstep
    dsimp only at hstep
    split at hstep
    · cases hstep
      cases isMainLoop with
      | true => exact Faithful.queued h message
      | false => exact Faithful.passed h (hok rfl) (Finset.sort_nodup _ _) message (copied s message)
    · cases hstep
  | dispatch =>
    unfold step at hstep
    dsimp only at hstep
    split at hstep
    · rename_i message rest hqueue
      cases hstep
      exact Faithful.taken h hqueue (Finset.sort_nodup _ _) (copied s message)
    · cases hstep
  | onEventMessage i =>
    rcases Option.map_eq_some_iff.1 hstep with ⟨channel, htell, rfl⟩
    exact Faithful.tell h hok (fun _ _ hadded => decide_eq_true hadded.2) htell

theorem reachable_sound (h : Reachable step InOrder initial s) : Sound s :=
  h.invariant initial_faithful fun _ _ _ => step_sound

end Invariant

section Progress
variable {η : Type} [LinearOrder η] {s t : State η}

def Alone (s : State η) (a : Action η) : Prop := a.IsOwn ∧ InOrder s a

def State.Quiet (s : State η) : Prop := s.channel.queue = [] ∧ s.channel.passes.flatten = []

structure SameRecords (s t : State η) : Prop where
  subscriptions : t.subscriptions = s.subscriptions
  expired : t.expired = s.expired
  received : t.channel.received = s.channel.received
  since : t.channel.since = s.channel.since

theorem own_step_same {a : Action η} (hown : a.IsOwn) (hstep : step s a = some t) : SameRecords s t := by
  cases a with
  | subscription action => exact hown.elim
  | expire eventHandler => exact hown.elim
  | receive message isMainLoop => exact hown.elim
  | dispatch =>
    unfold step at hstep
    dsimp only at hstep
    split at hstep
    · cases hstep
      exact ⟨rfl, rfl, rfl, rfl⟩
    · cases hstep
  | onEventMessage i =>
    rcases Option.map_eq_some_iff.1 hstep with ⟨channel, htell, rfl⟩
    rcases tell_some htell with ⟨_, _, _, _, _, _, rfl⟩
    exact ⟨rfl, rfl, rfl, rfl⟩

theorem alone_same (h : Reachable step Alone s t) : SameRecords s t := by
  apply h.invariant (I := SameRecords s) ⟨rfl, rfl, rfl, rfl⟩
  intro u a v hsame hok hstep
  have hstep := own_step_same hok.1 hstep
  exact ⟨hstep.subscriptions.trans hsame.subscriptions, hstep.expired.trans hsame.expired,
    hstep.received.trans hsame.received, hstep.since.trans hsame.since⟩

theorem works_off_alone (s : State η) : ∃ t, Reachable step Alone s t ∧ t.Quiet := by
  apply @works_off Event η VsomeipMessage (State η) (Action η) step Alone State.channel
  · intro s hcalls
    rcases exists_turn (fun eventHandler => eventHandler ∉ s.expired) hcalls with
      ⟨i, channel, hturn, htell, hless, hqueue, -, -⟩
    exact ⟨.onEventMessage i, { s with channel := channel }, ⟨trivial, hturn⟩,
      Option.map_eq_some_iff.2 ⟨channel, htell, rfl⟩, hless, hqueue⟩
  · intro s message rest hqueue
    have hstep : step s .dispatch =
        some (handleProxyReceive message { s with channel := { s.channel with queue := rest } }) := by
      unfold step
      dsimp only
      rw [hqueue]
    exact ⟨.dispatch, _, ⟨trivial, trivial⟩, hstep, rfl⟩

/-- In a quiet state a handler has been given what was received since it was added. -/
theorem Sound.handed (h : Sound s) (hquiet : s.Quiet) {event : Event} {eventHandler : η}
    (hadded : s.Added event eventHandler) : s.channel.since event eventHandler <:+ s.handed event eventHandler := by
  have hcomplete := h.complete event eventHandler hadded
  unfold Channel.deliveries Channel.onTheWay at hcomplete
  rw [hquiet.1, hquiet.2] at hcomplete
  change _ <:+ s.handed event eventHandler ++ [] at hcomplete
  rw [List.append_nil] at hcomplete
  exact hcomplete

theorem goes_on (h : Sound s) : ∃ t, Reachable step Alone s t ∧ t.Quiet ∧
    ∀ {event : Event} {eventHandler : η}, s.Added event eventHandler →
      s.channel.since event eventHandler <:+ t.handed event eventHandler := by
  rcases works_off_alone s with ⟨t, ht, hquiet⟩
  have hsame := alone_same ht
  have htsound : Sound t := ht.invariant h fun _ _ _ hu hok hstep => step_sound hu hok.2 hstep
  refine ⟨t, ht, hquiet, fun hadded => ?_⟩
  rw [← hsame.since]
  apply htsound.handed hquiet
  unfold State.Added
  rw [hsame.subscriptions, hsame.expired]
  exact hadded

/-- A handler is given no notification twice, and none out of order, whoever comes and goes. If the
    connection just goes on, each handler gets all that was received since it was added. -/
theorem notifications_arrive (h : Reachable step InOrder initial s) :
    (∀ event eventHandler, (s.handed event eventHandler).Sublist (forKey IsOf event s.channel.received)) ∧
      ∃ t, Reachable step Alone s t ∧ t.Quiet ∧ ∀ event eventHandler, s.Added event eventHandler →
        s.channel.since event eventHandler <:+ t.handed event eventHandler := by
  have hsound := reachable_sound h
  rcases goes_on hsound with ⟨t, ht, hquiet, hhanded⟩
  exact ⟨fun event eventHandler => (List.sublist_append_left _ _).trans (hsound.once event eventHandler),
    t, ht, hquiet, fun _ _ hadded => hhanded hadded⟩

end Progress

section Values
variable {η : Type} [LinearOrder η] {s : State η}
  {parts : (type : DataType) → type.Value → (part : DataType) → part.Value} {uninitialised : ℕ × ℕ} {fuel : ℕ}

/-- The message brings what a stub has sent for these values. -/
def Brings (fuel : ℕ) (types : DataTypes) (isLittleEndian : Bool) (message : VsomeipMessage) (values : types.Values) :
    Prop :=
  types.SendableFields isLittleEndian values 0 ∧ types.longestField values ≤ fuel ∧ ∃ address event sent,
    SendingPaths.sendEvent address event isLittleEndian (types.arguments values) = .ok (some sent) ∧ Short sent ∧
      message.payload = sent.message.payload

theorem Brings.read {types : DataTypes} {isLittleEndian : Bool} {message : VsomeipMessage} {values : types.Values}
    (h : Brings fuel types isLittleEndian message values) (formers : types.Values) :
    readArguments isLittleEndian (types.outArgs parts uninitialised fuel) formers message = .ok (true, values) := by
  rcases h with ⟨hsendable, hfits, _, _, sent, hsent, hshort, hpayload⟩
  exact types.arguments_arrive values formers hsendable hfits hsent hshort hpayload

/-- Where the notifications of an event bring the values that a stub has sent, a handler reads all values
    that were sent since it was added, in their order, if the connection just goes on. -/
theorem sent_values_arrive (h : Reachable step InOrder initial s) {event : Event} {eventHandler : η}
    (hadded : s.Added event eventHandler) {types : DataTypes} {isLittleEndian : Bool} {sent : List types.Values}
    (hsent : List.Forall₂ (Brings fuel types isLittleEndian) (s.channel.since event eventHandler) sent) :
    ∃ t, Reachable step Alone s t ∧ t.Quiet ∧ ∃ earlier messages, t.handed event eventHandler = earlier ++ messages ∧
      List.Forall₂ (fun message values => ∀ formers,
        readArguments isLittleEndian (types.outArgs parts uninitialised fuel) formers message = .ok (true, values))
        messages sent := by
  have hsound := reachable_sound h
  rcases goes_on hsound with ⟨t, ht, hquiet, hhanded⟩
  rcases hhanded hadded with ⟨earlier, hearlier⟩
  exact ⟨t, ht, hquiet, earlier, _, hearlier.symm, hsent.imp fun _ _ hbrings => hbrings.read⟩

end Values

section Examples
open EventListeners (changed byteAndBytes threeBytes)

def comingAndGoing : List (Action ℕ) :=
  [.subscription (.addEventHandler (eventOf changed) 1 (some 0)), .receive changed true, .dispatch,
    .subscription (.addEventHandler (eventOf changed) 1 (some 1)), .receive changed true, .expire 0, .onEventMessage 0]

theorem second_handler_gets_event :
    ∃ s ∈ run step initial comingAndGoing, ∃ t, Reachable step Alone s t ∧ t.Quiet ∧
      s.channel.since (eventOf changed) 1 <:+ t.handed (eventOf changed) 1 := by
  have hmeets : Meets step InOrder initial comingAndGoing := by decide +kernel
  have hadded : ∃ s ∈ run step initial comingAndGoing, s.Added (eventOf changed) 1 := by decide +kernel
  rcases hadded with ⟨s, hrun, hadded⟩
  rcases (notifications_arrive (.of_run _ hmeets hrun)).2 with ⟨t, ht, hquiet, hhanded⟩
  exact ⟨s, hrun, t, ht, hquiet, hhanded _ _ hadded⟩

theorem sent_bytes_arrive : ∃ (s : State ℕ) (sent : List byteAndBytes.Values), sent = [threeBytes] ∧
    ∃ t, Reachable step Alone s t ∧ t.Quiet ∧ ∃ earlier messages,
      t.handed (eventOf changed) 0 = earlier ++ messages ∧ List.Forall₂ (fun message values => ∀ formers,
        readArguments false (byteAndBytes.outArgs (fun _ _ => DataType.initial) (0, 0) 0) formers message =
          .ok (true, values)) messages sent := by
  have hsent := @written_shortly (SendingPaths.sendEvent ⟨0x1234, 1, 1, 0⟩ 0x8001 false
    (byteAndBytes.arguments threeBytes)) (by decide +kernel)
  rcases hsent with ⟨handed, hsent, hshort⟩
  have hbrings : Brings 0 byteAndBytes false { changed with payload := handed.message.payload } threeBytes :=
    ⟨⟨byte_survives 1, Or.inr (by decide), trivial⟩, by decide, _, _, handed, hsent, hshort, rfl⟩
  generalize handed.message.payload = payload at hbrings
  have h0 : Reachable step InOrder (initial : State ℕ) initial := Reachable.start
  have h1 := h0.next (a := Action.subscription (.addEventHandler (eventOf changed) 1 (some 0))) (t := _) trivial rfl
  have h2 := h1.next (a := Action.receive { changed with payload := payload } true) (t := _)
    (fun h => by cases h) rfl
  have hthere : 0 ∈ (EventSubscriptions.addEventHandler (eventOf changed) 1 (some 0)
      EventSubscriptions.initial).eventHandlers (eventOf changed) := by decide
  exact ⟨_, [threeBytes], rfl, sent_values_arrive h2 ⟨hthere, Finset.notMem_empty 0⟩ (.cons hbrings .nil)⟩

end Examples

end SomeIPRuntime.EventDistribution
