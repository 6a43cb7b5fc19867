import SomeIPRuntime.EventSubscriptions
import SomeIPRuntime.Tables

set_option autoImplicit false

/-!
# Calls of the subscription status handler

vsomeip calls the status handler of a subscription, which takes the pairs of handlers and tags that are
queued in the wrapper and tells each of them in a turn of its own, directly or through the main loop.
-/
namespace SomeIPRuntime.SubscriptionStatus
open StepSystems
open EventSubscriptions (Event Tag SubscriptionStatusWrapper)

abbrev Key := Event × EventgroupId
abbrev Pair (η : Type) := η × Tag

/-- An entry of `handlerCopy`, or of the main loop. `callback` is the number of the call of the status
    handler that it comes from. -/
structure ErrQueueEntry (η : Type) where
  callback : ℕ
  errorCode : BitVec 16
  key : Key
  eventHandler : η
  tag : Tag
  deriving DecidableEq

def ErrQueueEntry.pair {η : Type} (entry : ErrQueueEntry η) : Pair η := (entry.eventHandler, entry.tag)

/-- A call of the status handler. `due` are the pairs that were then registered and had been added or
    queued again since the call before. -/
structure Callback (η : Type) where
  errorCode : BitVec 16
  key : Key
  due : Finset (Pair η)

def Callback.entry {η : Type} (callback : Callback η) (number : ℕ) (pair : Pair η) : ErrQueueEntry η :=
  ⟨number, callback.errorCode, callback.key, pair.1, pair.2⟩

structure Turn (η : Type) where
  entry : ErrQueueEntry η
  registered : Bool
  expired : Bool
  called : Bool

/-- `expired` are the handlers whose `weak_ptr` has expired, `mainLoopContext` says whether the one of the
    main loop has not. `due`, `callbacks` and `turns` record what has happened. -/
structure State (η : Type) where
  connection : EventSubscriptions.State η
  expired : Finset η
  mainLoopContext : Bool
  handlerCopies : List (List (ErrQueueEntry η))
  queue : List (ErrQueueEntry η)
  due : Key → Finset (Pair η)
  callbacks : List (Callback η)
  turns : List (Turn η)

def initial {η : Type} (mainLoopContext : Bool) : State η :=
  ⟨EventSubscriptions.initial, ∅, mainLoopContext, [], [], fun _ => ∅, [], []⟩

inductive Action (η : Type)
  | addEventHandler (event : Event) (eventGroup : EventgroupId) (eventHandler : η)
  | removeEventHandler (event : Event) (eventGroup : EventgroupId) (eventHandler : η)
  | subscribe (event : Event) (eventGroup : EventgroupId) (eventHandler : η) (tag : Tag)
      (major : MajorVersion)
  | queueSubscriptionStatusHandler (service : ServiceId) (instance_ : InstanceId)
  | statusHandler (key : Key) (errorCode : BitVec 16)
  /-- the next entry of a `handlerCopy` -/
  | next (i : ℕ)
  | processErrQueueEntry
  | expire (eventHandler : η)
  | expireMainLoop

section Steps
variable {η : Type} [DecidableEq η]

def hasHandler (wrapper : SubscriptionStatusWrapper η) (handler : η) (tag : Tag) : Bool :=
  match wrapper.allHandlers.lookup handler with
  | some tags => tag ∈ tags
  | none => false

def pairs (wrapper : SubscriptionStatusWrapper η) : List (Pair η) :=
  wrapper.allHandlers.entries.flatMap fun itsHandler =>
    (itsHandler.2.sort (· ≤ ·)).map fun itsTag => (itsHandler.1, itsTag)

def pushOnPendingHandlerQueue (wrapper : SubscriptionStatusWrapper η) : SubscriptionStatusWrapper η :=
  { wrapper with pendingHandlerQueue := wrapper.pendingHandlerQueue ++ pairs wrapper }

def registered (connection : EventSubscriptions.State η) (key : Key) (pair : Pair η) : Bool :=
  match connection.subscriptionStates.lookup key with
  | some itsWrapper => hasHandler itsWrapper pair.1 pair.2
  | none => false

def State.lock (s : State η) (eventHandler : η) : Option η :=
  if eventHandler ∈ s.expired then none else some eventHandler

def subscribe (event : Event) (eventGroup : EventgroupId) (eventHandler : η) (tag : Tag)
    (major : MajorVersion) (s : State η) : State η :=
  { s with
    connection :=
      EventSubscriptions.subscribe event eventGroup (s.lock eventHandler) tag major s.connection
    due := match s.lock eventHandler with
      | some itsHandler => Function.update s.due (event, eventGroup)
          (insert (itsHandler, tag) (s.due (event, eventGroup)))
      | none => s.due }

/-- Whether `subscriptions_` has a table for the service and the instance. -/
def HasSubscriptions (connection : EventSubscriptions.State η) (service : ServiceId)
    (instance_ : InstanceId) : Prop :=
  ∃ event : EventId, connection.subscriptions (service, instance_, event) ≠ ∅

def Key.of (service : ServiceId) (instance_ : InstanceId) (key : Key) : Prop :=
  service = key.1.1 ∧ instance_ = key.1.2.1

instance (service : ServiceId) (instance_ : InstanceId) (key : Key) :
    Decidable (Key.of service instance_ key) := by
  unfold Key.of
  infer_instance

def pushOnPendingHandlerQueues (service : ServiceId) (instance_ : InstanceId)
    (states : AList fun _ : Key => SubscriptionStatusWrapper η) :
    AList fun _ : Key => SubscriptionStatusWrapper η :=
  ⟨states.entries.map fun x =>
      ⟨x.1, if Key.of service instance_ x.1 then pushOnPendingHandlerQueue x.2 else x.2⟩,
    states.nodupKeys.map₂ (fun key wrapper =>
      if Key.of service instance_ key then pushOnPendingHandlerQueue wrapper else wrapper)⟩

end Steps

def searchEvents (p : EventId → Bool) : ℕ → Bool
  | 0 => false
  | n + 1 => p (BitVec.ofNat 16 n) || searchEvents p n

theorem searchEvents_iff (p : EventId → Bool) (n : ℕ) :
    searchEvents p n = true ↔ ∃ i < n, p (BitVec.ofNat 16 i) = true := by
  induction n with
  | zero => simp [searchEvents]
  | succ n ih =>
    rw [searchEvents, Bool.or_eq_true, ih]
    constructor
    · rintro (h | ⟨i, hlt, h⟩)
      · exact ⟨n, Nat.lt_succ_self n, h⟩
      · exact ⟨i, Nat.lt_succ_of_lt hlt, h⟩
    · rintro ⟨i, hlt, h⟩
      rcases Nat.lt_succ_iff_lt_or_eq.1 hlt with hlt | rfl
      · exact Or.inr ⟨i, hlt, h⟩
      · exact Or.inl h

instance {η : Type} (connection : EventSubscriptions.State η) (service : ServiceId)
    (instance_ : InstanceId) : Decidable (HasSubscriptions connection service instance_) :=
  decidable_of_iff
    (searchEvents (fun event => connection.subscriptions (service, instance_, event) ≠ ∅) (2 ^ 16) = true)
    (by
      rw [searchEvents_iff]
      constructor
      · rintro ⟨i, _, h⟩
        exact ⟨_, of_decide_eq_true h⟩
      · rintro ⟨event, h⟩
        exact ⟨event.toNat, event.isLt, decide_eq_true (by simpa using h)⟩)

section Steps
variable {η : Type} [DecidableEq η]

def queueSubscriptionStatusHandler (service : ServiceId) (instance_ : InstanceId) (s : State η) :
    State η :=
  if HasSubscriptions s.connection service instance_ then
    { s with
      connection := { s.connection with
        subscriptionStates :=
          pushOnPendingHandlerQueues service instance_ s.connection.subscriptionStates }
      due := fun key =>
        match s.connection.subscriptionStates.lookup key with
        | some wrapper =>
          if Key.of service instance_ key then s.due key ∪ (pairs wrapper).toFinset else s.due key
        | none => s.due key }
  else s

def statusHandler (key : Key) (errorCode : BitVec 16) (s : State η) : State η :=
  let callback : Callback η :=
    ⟨errorCode, key, (s.due key).filter fun pair => registered s.connection key pair⟩
  let noted : State η :=
    { s with
      due := Function.update s.due key ∅
      callbacks := s.callbacks ++ [callback] }
  match s.connection.subscriptionStates.lookup key with
  | some itsWrapper =>
    { noted with
      connection := { s.connection with
        subscriptionStates :=
          s.connection.subscriptionStates.insert key { itsWrapper with pendingHandlerQueue := [] } }
      handlerCopies :=
        s.handlerCopies ++ [itsWrapper.pendingHandlerQueue.map (callback.entry s.callbacks.length)] }
  | none => noted

def State.turn (s : State η) (entry : ErrQueueEntry η) (called : Bool) : Turn η :=
  ⟨entry, registered s.connection entry.key entry.pair, entry.eventHandler ∈ s.expired, called⟩

def processEntry (entry : ErrQueueEntry η) (s : State η) : State η :=
  if s.mainLoopContext then { s with queue := s.queue ++ [entry] }
  else { s with turns := s.turns ++ [s.turn entry (s.lock entry.eventHandler).isSome] }

def processErrQueueEntry (entry : ErrQueueEntry η) (s : State η) : State η :=
  let called :=
    match s.connection.subscriptionStates.lookup entry.key with
    | some itsWrapper =>
      match s.lock entry.eventHandler with
      | some itsHandler => hasHandler itsWrapper itsHandler entry.tag
      | none => false
    | none => false
  { s with turns := s.turns ++ [s.turn entry called] }

def step (s : State η) : Action η → Option (State η)
  | .addEventHandler event eventGroup eventHandler =>
    some { s with
      connection :=
        EventSubscriptions.addEventHandler event eventGroup (s.lock eventHandler) s.connection }
  | .removeEventHandler event eventGroup eventHandler =>
    some { s with
      connection :=
        EventSubscriptions.removeEventHandler event eventGroup eventHandler s.connection }
  | .subscribe event eventGroup eventHandler tag major =>
    some (subscribe event eventGroup eventHandler tag major s)
  | .queueSubscriptionStatusHandler service instance_ =>
    some (queueSubscriptionStatusHandler service instance_ s)
  | .statusHandler key errorCode => some (statusHandler key errorCode s)
  | .next i =>
    match s.handlerCopies[i]? with
    | some (entry :: rest) =>
      some (processEntry entry { s with handlerCopies := s.handlerCopies.set i rest })
    | some [] | none => none
  | .processErrQueueEntry =>
    match s.queue with
    | entry :: rest => some (processErrQueueEntry entry { s with queue := rest })
    | [] => none
  | .expire eventHandler => some { s with expired := insert eventHandler s.expired }
  | .expireMainLoop => some { s with mainLoopContext := false }

def State.outstanding (s : State η) : List (ErrQueueEntry η) := s.handlerCopies.flatten ++ s.queue

/-- Each call of the status handler tells a pair at most once, tells it only while it is registered for
    the key of the call, and tells each pair that was due and is still there in its turn. -/
structure Right (s : State η) : Prop where
  once : ∀ number, ((s.turns.filter fun turn => turn.entry.callback = number ∧ turn.called).map
    fun turn => turn.entry.pair).Nodup
  only : ∀ turn ∈ s.turns, turn.called → turn.registered ∧
    ∃ callback, s.callbacks[turn.entry.callback]? = some callback ∧ turn.entry.key = callback.key
  each : ∀ number (callback : Callback η), s.callbacks[number]? = some callback → ∀ pair ∈ callback.due,
    callback.entry number pair ∈ s.outstanding ∨
      ∃ turn ∈ s.turns, turn.entry = callback.entry number pair ∧
        (turn.registered → turn.expired ∨ turn.called)

/-- When the status handler is called, no pair is queued twice. A pair that is told directly is still
    registered, or its handler has expired. -/
def Orderly (s : State η) : Action η → Prop
  | .statusHandler key _ =>
    ∀ itsWrapper ∈ s.connection.subscriptionStates.lookup key, itsWrapper.pendingHandlerQueue.Nodup
  | .next i =>
    s.mainLoopContext = false → ∀ entries ∈ s.handlerCopies[i]?, ∀ entry ∈ entries.head?,
      entry.eventHandler ∈ s.expired ∨ registered s.connection entry.key entry.pair
  | _ => True

instance (s : State η) (a : Action η) : Decidable (Orderly s a) := by
  cases a <;> unfold Orderly <;> infer_instance

end Steps

section Invariant
variable {η : Type} [DecidableEq η] {s t : State η}

theorem mem_pairs {wrapper : SubscriptionStatusWrapper η} {pair : Pair η} :
    pair ∈ pairs wrapper ↔ hasHandler wrapper pair.1 pair.2 = true := by
  rcases pair with ⟨handler, tag⟩
  simp only [pairs, hasHandler, List.mem_flatMap, List.mem_map, Finset.mem_sort, Prod.mk.injEq]
  constructor
  · rintro ⟨⟨_, tags⟩, hmem, _, htag, rfl, rfl⟩
    rw [AList.mem_lookup_iff.2 hmem]
    exact decide_eq_true htag
  · intro h
    cases hfound : wrapper.allHandlers.lookup handler with
    | none =>
      rw [hfound] at h
      cases h
    | some tags =>
      rw [hfound] at h
      exact ⟨⟨handler, tags⟩, AList.mem_lookup_iff.1 hfound, tag, of_decide_eq_true h, rfl, rfl⟩

omit [DecidableEq η] in
theorem lookup_push (service : ServiceId) (instance_ : InstanceId)
    (states : AList fun _ : Key => SubscriptionStatusWrapper η) (key : Key) :
    (pushOnPendingHandlerQueues service instance_ states).lookup key =
      (states.lookup key).map fun wrapper =>
        if Key.of service instance_ key then pushOnPendingHandlerQueue wrapper else wrapper :=
  List.dlookup_map₂ (l := states.entries)
    (f := fun key wrapper =>
      if Key.of service instance_ key then pushOnPendingHandlerQueue wrapper else wrapper) key

theorem hasHandler_add (wrapper : SubscriptionStatusWrapper η) (handler : η) (tag : Tag) (other : η)
    (otherTag : Tag) :
    hasHandler (wrapper.addHandler (some handler) tag) other otherTag = true →
      (other, otherTag) = (handler, tag) ∨ hasHandler wrapper other otherTag = true := by
  unfold hasHandler SubscriptionStatusWrapper.addHandler
  by_cases hsame : other = handler
  · subst hsame
    cases hfound : wrapper.allHandlers.lookup other with
    | none => simp [hfound]
    | some tags => simp [hfound]
  · cases hfound : wrapper.allHandlers.lookup handler with
    | none => simpa only [hfound, AList.lookup_insert_ne hsame] using Or.inr
    | some tags => simpa only [hfound, AList.lookup_insert_ne hsame] using Or.inr

theorem hasHandler_remove (wrapper : SubscriptionStatusWrapper η) (handler other : η) (tag : Tag)
    (h : hasHandler (wrapper.removeHandler handler) other tag = true) :
    hasHandler wrapper other tag = true := by
  unfold hasHandler SubscriptionStatusWrapper.removeHandler at *
  by_cases hsame : other = handler
  · subst hsame
    rw [AList.lookup_erase] at h
    cases h
  · simpa only [AList.lookup_erase_ne hsame] using h

def Thins (states others : AList fun _ : Key => SubscriptionStatusWrapper η) : Prop :=
  ∀ key, ∀ itsWrapper ∈ others.lookup key, ∃ old ∈ states.lookup key,
    old.pendingHandlerQueue = itsWrapper.pendingHandlerQueue ∧
      ∀ handler tag, hasHandler itsWrapper handler tag = true → hasHandler old handler tag = true

theorem Thins.refl (states : AList fun _ : Key => SubscriptionStatusWrapper η) : Thins states states :=
  fun _ itsWrapper h => ⟨itsWrapper, h, rfl, fun _ _ => id⟩

theorem Thins.removeHandler {states : AList fun _ : Key => SubscriptionStatusWrapper η} {key : Key}
    {old : SubscriptionStatusWrapper η} (hold : old ∈ states.lookup key) (handler : η) :
    Thins states (states.insert key (old.removeHandler handler)) := by
  intro other itsWrapper h
  by_cases hsame : other = key
  · subst hsame
    rw [AList.lookup_insert, Option.mem_some_iff] at h
    subst h
    exact ⟨old, hold, rfl, hasHandler_remove old handler⟩
  · rw [AList.lookup_insert_ne hsame] at h
    exact ⟨itsWrapper, h, rfl, fun _ _ => id⟩

theorem Thins.erase {states others : AList fun _ : Key => SubscriptionStatusWrapper η}
    (h : Thins states others) (key : Key) : Thins states (others.erase key) := by
  intro other itsWrapper hfound
  by_cases hsame : other = key
  · subst hsame
    rw [AList.lookup_erase] at hfound
    cases hfound
  · rw [AList.lookup_erase_ne hsame] at hfound
    exact h other itsWrapper hfound

theorem removeEventHandler_thins (event : Event) (eventGroup : EventgroupId) (eventHandler : η)
    (connection : EventSubscriptions.State η) :
    Thins connection.subscriptionStates
      (EventSubscriptions.removeEventHandler event eventGroup eventHandler connection).subscriptionStates := by
  have hthins : Thins connection.subscriptionStates
      (match connection.subscriptionStates.lookup (event, eventGroup) with
      | some itsWrapper => connection.subscriptionStates.insert (event, eventGroup)
          (itsWrapper.removeHandler eventHandler)
      | none => connection.subscriptionStates) := by
    cases hfound : connection.subscriptionStates.lookup (event, eventGroup) with
    | none => exact Thins.refl _
    | some itsWrapper => exact Thins.removeHandler hfound eventHandler
  unfold EventSubscriptions.removeEventHandler
  dsimp only
  split
  · exact hthins.erase _
  · exact hthins

theorem addEventHandler_states (event : Event) (eventGroup : EventgroupId) (eventHandler : Option η)
    (connection : EventSubscriptions.State η) :
    (EventSubscriptions.addEventHandler event eventGroup eventHandler connection).subscriptionStates =
      connection.subscriptionStates := by
  cases eventHandler <;> rfl

theorem lookup_subscribe (event : Event) (eventGroup : EventgroupId) (eventHandler : Option η)
    (tag : Tag) (major : MajorVersion) (connection : EventSubscriptions.State η) :
    (EventSubscriptions.subscribe event eventGroup eventHandler tag major
        connection).subscriptionStates.lookup (event, eventGroup) =
      some (((connection.subscriptionStates.lookup (event, eventGroup)).getD ⟨∅, []⟩).addHandler
        eventHandler tag) := by
  unfold EventSubscriptions.subscribe EventSubscriptions.insertSubscriptionStatusListener
  cases connection.subscriptionStates.lookup (event, eventGroup) <;> exact AList.lookup_insert _

theorem lookup_subscribe_ne (event : Event) (eventGroup : EventgroupId) (eventHandler : Option η)
    (tag : Tag) (major : MajorVersion) (connection : EventSubscriptions.State η) {key : Key}
    (hne : key ≠ (event, eventGroup)) :
    (EventSubscriptions.subscribe event eventGroup eventHandler tag major
        connection).subscriptionStates.lookup key = connection.subscriptionStates.lookup key := by
  unfold EventSubscriptions.subscribe EventSubscriptions.insertSubscriptionStatusListener
  cases connection.subscriptionStates.lookup (event, eventGroup) <;> exact AList.lookup_insert_ne hne

def Pending (s : State η) : Prop :=
  ∀ key, ∀ pair ∈ s.due key, ∀ itsWrapper ∈ s.connection.subscriptionStates.lookup key,
    hasHandler itsWrapper pair.1 pair.2 = true → pair ∈ itsWrapper.pendingHandlerQueue

theorem Pending.thins (h : Pending s)
    (hthins : Thins s.connection.subscriptionStates t.connection.subscriptionStates)
    (hdue : t.due = s.due) : Pending t := by
  intro key pair hpair itsWrapper hfound hhas
  rcases hthins key itsWrapper hfound with ⟨old, hold, hqueue, hhad⟩
  rw [← hqueue]
  exact h key pair (hdue ▸ hpair) old hold (hhad _ _ hhas)

/-- A pair that is due is pending in the wrapper that a subscription finds or makes. -/
theorem Pending.wrapper (h : Pending s) {key : Key} {pair : Pair η} (hdue : pair ∈ s.due key)
    (hhas : hasHandler ((s.connection.subscriptionStates.lookup key).getD ⟨∅, []⟩) pair.1 pair.2 = true) :
    pair ∈ ((s.connection.subscriptionStates.lookup key).getD ⟨∅, []⟩).pendingHandlerQueue := by
  cases hold : s.connection.subscriptionStates.lookup key with
  | none =>
    rw [hold] at hhas
    cases hhas
  | some old =>
    rw [hold] at hhas
    exact h key pair hdue old hold hhas

theorem Pending.subscribe (h : Pending s) (event : Event) (eventGroup : EventgroupId)
    (eventHandler : η) (tag : Tag) (major : MajorVersion) :
    Pending (subscribe event eventGroup eventHandler tag major s) := by
  intro key pair hpair itsWrapper hfound hhas
  unfold SubscriptionStatus.subscribe at hpair hfound
  dsimp only at hpair hfound
  by_cases hsame : key = (event, eventGroup)
  · subst hsame
    rw [lookup_subscribe, Option.mem_some_iff] at hfound
    subst hfound
    cases hlock : s.lock eventHandler with
    | none =>
      rw [hlock] at hpair hhas
      exact h.wrapper hpair hhas
    | some itsHandler =>
      rw [hlock] at hpair hhas
      dsimp only at hpair
      rw [Function.update_self, Finset.mem_insert] at hpair
      change pair ∈ _ ++ [(itsHandler, tag)]
      rw [List.mem_append, List.mem_singleton]
      rcases hasHandler_add _ _ _ _ _ hhas with hnew | hhad
      · exact Or.inr hnew
      · rcases hpair with hnew | hdue
        · exact Or.inr hnew
        · exact Or.inl (h.wrapper hdue hhad)
  · rw [lookup_subscribe_ne _ _ _ _ _ _ hsame] at hfound
    refine h key pair ?_ itsWrapper hfound hhas
    cases hlock : s.lock eventHandler with
    | none =>
      rw [hlock] at hpair
      exact hpair
    | some itsHandler =>
      rw [hlock] at hpair
      simpa only [Function.update_of_ne hsame] using hpair

theorem Pending.queue (h : Pending s) (service : ServiceId) (instance_ : InstanceId) :
    Pending (queueSubscriptionStatusHandler service instance_ s) := by
  unfold queueSubscriptionStatusHandler
  split
  · intro key pair hpair itsWrapper hfound hhas
    dsimp only at hpair hfound
    rw [lookup_push] at hfound
    rcases Option.mem_map.1 hfound with ⟨old, hold, rfl⟩
    rw [show s.connection.subscriptionStates.lookup key = some old from hold] at hpair
    dsimp only at hpair
    by_cases hof : Key.of service instance_ key
    · rw [if_pos hof] at hpair hhas ⊢
      change pair ∈ old.pendingHandlerQueue ++ pairs old
      exact List.mem_append_right _ (mem_pairs.2 hhas)
    · rw [if_neg hof] at hpair hhas ⊢
      exact h key pair hpair old hold hhas
  · exact h

theorem Pending.statusHandler (h : Pending s) (key : Key) (errorCode : BitVec 16) :
    Pending (statusHandler key errorCode s) := by
  have hother : ∀ states : AList fun _ : Key => SubscriptionStatusWrapper η,
      (∀ other, other ≠ key → states.lookup other = s.connection.subscriptionStates.lookup other) →
      ∀ other, ∀ pair ∈ Function.update s.due key ∅ other, ∀ itsWrapper ∈ states.lookup other,
        hasHandler itsWrapper pair.1 pair.2 = true → pair ∈ itsWrapper.pendingHandlerQueue := by
    intro states hstates other pair hpair itsWrapper hfound hhas
    by_cases hsame : other = key
    · subst hsame
      rw [Function.update_self] at hpair
      cases Finset.notMem_empty _ hpair
    · rw [Function.update_of_ne hsame] at hpair
      rw [hstates other hsame] at hfound
      exact h other pair hpair itsWrapper hfound hhas
  unfold SubscriptionStatus.statusHandler
  cases s.connection.subscriptionStates.lookup key with
  | none => exact hother _ fun _ _ => rfl
  | some itsWrapper => exact hother _ fun _ hne => AList.lookup_insert_ne hne

def State.entries (s : State η) : List (ErrQueueEntry η) := s.outstanding ++ s.turns.map Turn.entry

/-- A turn was right: who was told was registered, and who was registered and could be told was told. -/
structure Turn.Fair (turn : Turn η) : Prop where
  only : turn.called → turn.registered
  told : turn.registered → turn.expired ∨ turn.called

structure Delivery (s : State η) : Prop where
  distinct : s.entries.Nodup
  stamped : ∀ entry ∈ s.entries, ∃ callback, s.callbacks[entry.callback]? = some callback ∧
    entry = callback.entry entry.callback entry.pair
  each : ∀ number (callback : Callback η), s.callbacks[number]? = some callback →
    ∀ pair ∈ callback.due, callback.entry number pair ∈ s.entries
  fair : ∀ turn ∈ s.turns, turn.Fair

omit [DecidableEq η] in
theorem Delivery.perm (h : Delivery s) (hperm : t.entries.Perm s.entries)
    (hcallbacks : t.callbacks = s.callbacks) (hfair : ∀ turn ∈ t.turns, turn.Fair) : Delivery t where
  distinct := hperm.nodup_iff.2 h.distinct
  stamped entry hentry := by
    rw [hcallbacks]
    exact h.stamped entry (hperm.mem_iff.1 hentry)
  each number callback hcallback pair hpair := by
    rw [hcallbacks] at hcallback
    exact hperm.mem_iff.2 (h.each number callback hcallback pair hpair)
  fair := hfair

omit [DecidableEq η] in
/-- A step that neither calls a status handler nor gives a turn. -/
theorem Delivery.frame (h : Delivery s) (hentries : t.entries = s.entries)
    (hcallbacks : t.callbacks = s.callbacks) (hturns : t.turns = s.turns) : Delivery t := by
  refine h.perm ?_ hcallbacks ?_
  · rw [hentries]
  · rw [hturns]
    exact h.fair

omit [DecidableEq η] in
theorem flatten_set {copies : List (List (ErrQueueEntry η))} {i : ℕ} {entry : ErrQueueEntry η}
    {rest : List (ErrQueueEntry η)} (h : copies[i]? = some (entry :: rest)) :
    copies.flatten.Perm (entry :: (copies.set i rest).flatten) := by
  rcases Tables.set_perm h rest with ⟨others, hold, hnew⟩
  exact hold.flatten.trans (hnew.flatten.symm.cons entry)

theorem lock_isSome (s : State η) (eventHandler : η) :
    (s.lock eventHandler).isSome = decide (eventHandler ∉ s.expired) := by
  unfold State.lock
  by_cases h : eventHandler ∈ s.expired <;> simp [h]

theorem fair_direct (entry : ErrQueueEntry η)
    (hok : entry.eventHandler ∈ s.expired ∨ registered s.connection entry.key entry.pair = true) :
    (s.turn entry (s.lock entry.eventHandler).isSome).Fair := by
  rw [lock_isSome]
  constructor
  · intro hcalled
    exact hok.resolve_left (of_decide_eq_true hcalled)
  · intro _
    by_cases h : entry.eventHandler ∈ s.expired <;> simp [State.turn, h]

theorem fair_queued (entry : ErrQueueEntry η) (called : Bool)
    (hcalled : called = (registered s.connection entry.key entry.pair && entry.eventHandler ∉ s.expired)) :
    (s.turn entry called).Fair := by
  subst hcalled
  constructor
  · intro h
    exact (Bool.and_eq_true_iff.1 h).1
  · intro (hregistered : registered s.connection entry.key entry.pair = true)
    by_cases h : entry.eventHandler ∈ s.expired <;> simp [State.turn, h, hregistered]

theorem called_eq (entry : ErrQueueEntry η) :
    (match s.connection.subscriptionStates.lookup entry.key with
      | some itsWrapper =>
        match s.lock entry.eventHandler with
        | some itsHandler => hasHandler itsWrapper itsHandler entry.tag
        | none => false
      | none => false) =
      (registered s.connection entry.key entry.pair && entry.eventHandler ∉ s.expired) := by
  unfold registered State.lock
  cases s.connection.subscriptionStates.lookup entry.key with
  | none => rfl
  | some itsWrapper => by_cases h : entry.eventHandler ∈ s.expired <;> simp [h, ErrQueueEntry.pair]

theorem Delivery.processErrQueueEntry (h : Delivery s) {entry : ErrQueueEntry η}
    {rest : List (ErrQueueEntry η)} (hqueue : s.queue = entry :: rest) :
    Delivery (processErrQueueEntry entry { s with queue := rest }) := by
  refine h.perm ?_ rfl fun turn hturn => ?_
  · unfold State.entries State.outstanding SubscriptionStatus.processErrQueueEntry State.turn
    rw [hqueue, List.map_append, List.append_assoc, List.append_assoc]
    apply List.Perm.append_left
    rw [List.cons_append, List.map_singleton, ← List.append_assoc]
    exact List.perm_append_singleton _ _
  · rcases List.mem_append.1 hturn with hturn | hturn
    · exact h.fair turn hturn
    · rw [List.mem_singleton.1 hturn]
      exact fair_queued (s := { s with queue := rest }) entry _ (called_eq entry)

theorem Delivery.next (h : Delivery s) {i : ℕ} {entry : ErrQueueEntry η}
    {rest : List (ErrQueueEntry η)} (hcopy : s.handlerCopies[i]? = some (entry :: rest))
    (hok : Orderly s (.next i)) :
    Delivery (processEntry entry { s with handlerCopies := s.handlerCopies.set i rest }) := by
  have hset := flatten_set hcopy
  unfold processEntry
  cases hcontext : s.mainLoopContext with
  | true =>
    refine h.perm ?_ rfl h.fair
    apply List.Perm.append_right
    change ((s.handlerCopies.set i rest).flatten ++ (s.queue ++ [entry])).Perm
      (s.handlerCopies.flatten ++ s.queue)
    rw [← List.append_assoc]
    exact (List.perm_append_singleton _ _).trans (hset.symm.append_right s.queue)
  | false =>
    refine h.perm ?_ rfl fun turn hturn => ?_
    · change ((s.handlerCopies.set i rest).flatten ++ s.queue ++ (s.turns ++ [_]).map Turn.entry).Perm
        (s.handlerCopies.flatten ++ s.queue ++ s.turns.map Turn.entry)
      rw [List.map_append, List.map_singleton, ← List.append_assoc]
      refine (List.perm_append_singleton _ _).trans ?_
      exact (hset.symm.append_right s.queue).append_right _
    · rcases List.mem_append.1 hturn with hturn | hturn
      · exact h.fair turn hturn
      · rw [List.mem_singleton.1 hturn]
        apply fair_direct
        exact hok hcontext _ hcopy entry rfl

omit [DecidableEq η] in
theorem Delivery.callback_lt (h : Delivery s) {entry : ErrQueueEntry η} (hentry : entry ∈ s.entries) :
    entry.callback < s.callbacks.length := by
  rcases h.stamped entry hentry with ⟨callback, hcallback, -⟩
  exact (List.getElem?_eq_some_iff.1 hcallback).1

omit [DecidableEq η] in
theorem entry_injective (callback : Callback η) (number : ℕ) :
    Function.Injective (callback.entry number) := by
  intro pair other h
  exact Prod.ext (congrArg ErrQueueEntry.eventHandler h) (congrArg ErrQueueEntry.tag h)

omit [DecidableEq η] in
theorem Delivery.callback (h : Delivery s) (callback : Callback η) (taken : List (Pair η))
    (hnodup : taken.Nodup) (hdue : ∀ pair ∈ callback.due, pair ∈ taken)
    (hentries : t.entries.Perm (taken.map (callback.entry s.callbacks.length) ++ s.entries))
    (hcallbacks : t.callbacks = s.callbacks ++ [callback]) (hturns : t.turns = s.turns) :
    Delivery t where
  distinct := by
    rw [hentries.nodup_iff, List.nodup_append]
    refine ⟨hnodup.map (entry_injective callback _), h.distinct, ?_⟩
    rintro _ hnew entry hentry rfl
    rcases List.mem_map.1 hnew with ⟨pair, -, rfl⟩
    exact Nat.lt_irrefl _ (h.callback_lt hentry)
  stamped entry hentry := by
    rw [hcallbacks]
    rcases List.mem_append.1 (hentries.mem_iff.1 hentry) with hnew | hold
    · rcases List.mem_map.1 hnew with ⟨pair, -, rfl⟩
      exact ⟨callback, List.getElem?_concat_length, rfl⟩
    · rcases h.stamped entry hold with ⟨other, hother, heq⟩
      refine ⟨other, ?_, heq⟩
      rw [List.getElem?_append_left (h.callback_lt hold)]
      exact hother
  each number other hother pair hpair := by
    rw [hcallbacks] at hother
    rw [hentries.mem_iff, List.mem_append]
    by_cases hlt : number < s.callbacks.length
    · rw [List.getElem?_append_left hlt] at hother
      exact Or.inr (h.each number other hother pair hpair)
    · have hlt' := (List.getElem?_eq_some_iff.1 hother).1
      rw [List.length_append, List.length_singleton] at hlt'
      have hlast : number = s.callbacks.length := by omega
      subst hlast
      rw [List.getElem?_concat_length, Option.some.injEq] at hother
      subst hother
      exact Or.inl (List.mem_map_of_mem (hdue pair hpair))
  fair := by
    rw [hturns]
    exact h.fair

structure Good (s : State η) : Prop where
  pending : Pending s
  delivery : Delivery s

theorem Good.statusHandler (h : Good s) (key : Key) (errorCode : BitVec 16)
    (hok : Orderly s (.statusHandler key errorCode)) : Good (statusHandler key errorCode s) := by
  refine ⟨h.pending.statusHandler key errorCode, ?_⟩
  change ∀ itsWrapper ∈ s.connection.subscriptionStates.lookup key,
    itsWrapper.pendingHandlerQueue.Nodup at hok
  have hpending := h.pending key
  unfold SubscriptionStatus.statusHandler
  cases hfound : s.connection.subscriptionStates.lookup key with
  | none =>
    refine h.delivery.callback _ [] List.nodup_nil (fun pair hpair => ?_) (List.Perm.refl _) rfl rfl
    have hregistered := (Finset.mem_filter.1 hpair).2
    rw [registered, hfound] at hregistered
    cases hregistered
  | some itsWrapper =>
    refine h.delivery.callback _ itsWrapper.pendingHandlerQueue (hok itsWrapper hfound)
      (fun pair hpair => ?_) ?_ rfl rfl
    · rcases Finset.mem_filter.1 hpair with ⟨hdue, hregistered⟩
      rw [registered, hfound] at hregistered
      exact hpending pair hdue itsWrapper hfound hregistered
    · unfold State.entries State.outstanding
      dsimp only
      rw [List.flatten_append, List.flatten_singleton, ← List.append_assoc, ← List.append_assoc]
      exact (List.perm_append_comm.append_right s.queue).append_right _

theorem step_good (a : Action η) (h : Good s) (hok : Orderly s a) (hstep : step s a = some t) :
    Good t := by
  cases a with
  | addEventHandler event eventGroup eventHandler =>
    cases hstep
    refine ⟨h.pending.thins ?_ rfl, h.delivery.frame rfl rfl rfl⟩
    dsimp only
    rw [addEventHandler_states]
    exact Thins.refl _
  | removeEventHandler event eventGroup eventHandler =>
    cases hstep
    exact ⟨h.pending.thins (removeEventHandler_thins _ _ _ _) rfl, h.delivery.frame rfl rfl rfl⟩
  | subscribe event eventGroup eventHandler tag major =>
    cases hstep
    exact ⟨h.pending.subscribe event eventGroup eventHandler tag major,
      h.delivery.frame rfl rfl rfl⟩
  | queueSubscriptionStatusHandler service instance_ =>
    cases hstep
    refine ⟨h.pending.queue service instance_, ?_⟩
    unfold queueSubscriptionStatusHandler
    split
    · exact h.delivery.frame rfl rfl rfl
    · exact h.delivery
  | statusHandler key errorCode =>
    cases hstep
    exact h.statusHandler key errorCode hok
  | next i =>
    simp only [step] at hstep
    split at hstep
    · rename_i entry rest hcopy
      cases hstep
      refine ⟨?_, h.delivery.next hcopy hok⟩
      unfold processEntry
      split <;> exact h.pending
    · cases hstep
    · cases hstep
  | processErrQueueEntry =>
    simp only [step] at hstep
    split at hstep
    · rename_i entry rest hqueue
      cases hstep
      exact ⟨h.pending, h.delivery.processErrQueueEntry hqueue⟩
    · cases hstep
  | expire eventHandler =>
    cases hstep
    exact ⟨h.pending, h.delivery.frame rfl rfl rfl⟩
  | expireMainLoop =>
    cases hstep
    exact ⟨h.pending, h.delivery.frame rfl rfl rfl⟩

theorem initial_good (mainLoopContext : Bool) : Good (initial mainLoopContext : State η) where
  pending _ _ hpair := absurd hpair (Finset.notMem_empty _)
  delivery :=
    { distinct := List.nodup_nil
      stamped := fun _ h => absurd h List.not_mem_nil
      each := fun _ _ h => by cases h
      fair := fun _ h => absurd h List.not_mem_nil }

omit [DecidableEq η] in
theorem Delivery.once (h : Delivery s) (number : ℕ) :
    ((s.turns.filter fun turn => turn.entry.callback = number ∧ turn.called).map
      fun turn => turn.entry.pair).Nodup := by
  have hsub : ((s.turns.filter fun turn => turn.entry.callback = number ∧ turn.called).map
      Turn.entry).Sublist s.entries :=
    (List.filter_sublist.map Turn.entry).trans (List.sublist_append_right _ _)
  have hdistinct := h.distinct.sublist hsub
  change ((s.turns.filter _).map (ErrQueueEntry.pair ∘ Turn.entry)).Nodup
  rw [← List.map_map]
  refine hdistinct.map_on fun entry hentry other hother hpair => ?_
  have hnumber : ∀ e ∈ (s.turns.filter fun turn =>
      turn.entry.callback = number ∧ turn.called).map Turn.entry, e.callback = number := by
    intro e he
    rcases List.mem_map.1 he with ⟨turn, hturn, rfl⟩
    exact (of_decide_eq_true (List.mem_filter.1 hturn).2).1
  rcases h.stamped entry (hsub.subset hentry) with ⟨callback, hcallback, heq⟩
  rcases h.stamped other (hsub.subset hother) with ⟨callback', hcallback', heq'⟩
  rw [hnumber entry hentry] at hcallback heq
  rw [hnumber other hother] at hcallback' heq'
  cases hcallback.symm.trans hcallback'
  rw [heq, heq', hpair]

omit [DecidableEq η] in
theorem Delivery.right (h : Delivery s) : Right s where
  once := h.once
  only turn hturn hcalled := by
    rcases h.stamped turn.entry (List.mem_append_right _ (List.mem_map_of_mem hturn)) with
      ⟨callback, hcallback, heq⟩
    exact ⟨(h.fair turn hturn).only hcalled, callback, hcallback, congrArg ErrQueueEntry.key heq⟩
  each number callback hcallback pair hpair := by
    rcases List.mem_append.1 (h.each number callback hcallback pair hpair) with hentry | hentry
    · exact Or.inl hentry
    · rcases List.mem_map.1 hentry with ⟨turn, hturn, heq⟩
      exact Or.inr ⟨turn, hturn, heq, (h.fair turn hturn).told⟩

/-- In every run in which no pair is queued twice when the status handler is called, and in which the
    pairs that are told directly are still registered, the right pairs are told. -/
theorem status_reported_right {mainLoopContext : Bool}
    (h : Reachable step Orderly (initial mainLoopContext) s) : Right s :=
  (h.invariant (initial_good mainLoopContext) fun _ a _ => step_good a).delivery.right

end Invariant

def subscribedAndLost : List (Action ℕ) :=
  [.addEventHandler (1, 1, 0xFFFF) 1 1, .addEventHandler (1, 1, 0xFFFF) 1 2,
    .subscribe (1, 1, 0xFFFF) 1 1 0 1, .subscribe (1, 1, 0xFFFF) 1 2 1 1,
    .statusHandler ((1, 1, 0xFFFF), 1) 0, .next 0, .next 0, .processErrQueueEntry,
    .queueSubscriptionStatusHandler 1 1, .processErrQueueEntry, .statusHandler ((1, 1, 0xFFFF), 1) 7,
    .next 1, .next 1, .processErrQueueEntry, .removeEventHandler (1, 1, 0xFFFF) 1 1,
    .processErrQueueEntry]

theorem subscribed_and_lost_right :
    ∃ s, run step (initial true) subscribedAndLost = some s ∧ Right s := by
  have hrun : (run step (initial true) subscribedAndLost).isSome := by decide +kernel
  have hmeets : Meets step Orderly (initial true) subscribedAndLost := by decide +kernel
  rcases Option.isSome_iff_exists.1 hrun with ⟨s, hs⟩
  exact ⟨s, hs, status_reported_right (.of_run _ hmeets hs)⟩

def removedBefore : List (Action ℕ) :=
  [.addEventHandler (1, 1, 0xFFFF) 1 1, .addEventHandler (1, 1, 0xFFFF) 1 2,
    .subscribe (1, 1, 0xFFFF) 1 1 0 1, .removeEventHandler (1, 1, 0xFFFF) 1 1,
    .statusHandler ((1, 1, 0xFFFF), 1) 0, .next 0]

def lostBefore : List (Action ℕ) :=
  [.addEventHandler (1, 1, 0xFFFF) 1 1, .subscribe (1, 1, 0xFFFF) 1 1 0 1,
    .queueSubscriptionStatusHandler 1 1, .statusHandler ((1, 1, 0xFFFF), 1) 7, .next 0, .next 0,
    .processErrQueueEntry, .processErrQueueEntry]

theorem wrong_pairs_told :
    (¬ ∀ s : State ℕ, Reachable step Free (initial false) s → Right s) ∧
      ¬ ∀ s : State ℕ, Reachable step Free (initial true) s → Right s := by
  constructor
  · intro h
    have hwrong : ∃ s ∈ run step (initial false) removedBefore,
        ∃ turn ∈ s.turns, turn.called ∧ turn.registered = false := by decide +kernel
    rcases hwrong with ⟨s, hs, turn, hturn, hcalled, hregistered⟩
    have honly := ((h s (reachable_of_run hs)).only turn hturn hcalled).1
    rw [hregistered] at honly
    cases honly
  · intro h
    have htwice : ∃ s ∈ run step (initial true) lostBefore,
        ¬ ((s.turns.filter fun turn => turn.entry.callback = 0 ∧ turn.called).map
          fun turn => turn.entry.pair).Nodup := by decide +kernel
    rcases htwice with ⟨s, hs, htwice⟩
    exact htwice ((h s (reachable_of_run hs)).once 0)

end SomeIPRuntime.SubscriptionStatus
