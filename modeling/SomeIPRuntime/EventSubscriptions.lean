import Mathlib.Data.List.AList
import SomeIPRuntime.Address
import SomeIPRuntime.StepSystems

set_option autoImplicit false

namespace SomeIPRuntime.EventSubscriptions
open StepSystems

abbrev Event := ServiceId × InstanceId × EventId
abbrev Tag := BitVec 32

/-- Handlers that have expired are not seen: a locked `weak_ptr` is an option. -/
structure SubscriptionStatusWrapper (η : Type) where
  allHandlers : AList fun _ : η => Finset Tag
  pendingHandlerQueue : List (η × Tag)

/-- `subscribed` and `statusHandlers` are what vsomeip has, `calls` are the calls of
    `vsomeip::application::subscribe` that are still to be made. The inner tables of
    `eventHandlers_` and `subscriptions_` that are empty are not told from missing ones. -/
structure State (η : Type) where
  eventHandlers : Event → Finset η
  subscriptions : Event → Finset EventgroupId
  subscriptionStates : AList fun _ : Event × EventgroupId => SubscriptionStatusWrapper η
  calls : List (Event × EventgroupId × MajorVersion)
  subscribed : Finset (Event × EventgroupId)
  statusHandlers : Finset (Event × EventgroupId)

def initial {η : Type} : State η := ⟨fun _ => ∅, fun _ => ∅, ∅, [], ∅, ∅⟩

inductive Action (η : Type)
  | addEventHandler (event : Event) (eventGroup : EventgroupId) (eventHandler : Option η)
  | removeEventHandler (event : Event) (eventGroup : EventgroupId) (eventHandler : η)
  | subscribe (event : Event) (eventGroup : EventgroupId) (eventHandler : Option η) (tag : Tag)
      (major : MajorVersion)
  /-- the call that ends `subscribe` -/
  | call (event : Event) (eventGroup : EventgroupId) (major : MajorVersion)

section Steps
variable {η : Type} [DecidableEq η]

def SubscriptionStatusWrapper.addHandler (wrapper : SubscriptionStatusWrapper η)
    (handler : Option η) (tag : Tag) : SubscriptionStatusWrapper η :=
  match handler with
  | none => wrapper
  | some itsHandler =>
    { allHandlers :=
        match wrapper.allHandlers.lookup itsHandler with
        | some tags => wrapper.allHandlers.insert itsHandler (insert tag tags)
        | none => wrapper.allHandlers.insert itsHandler {tag}
      pendingHandlerQueue := wrapper.pendingHandlerQueue ++ [(itsHandler, tag)] }

def SubscriptionStatusWrapper.removeHandler (wrapper : SubscriptionStatusWrapper η) (handler : η) :
    SubscriptionStatusWrapper η :=
  { wrapper with allHandlers := wrapper.allHandlers.erase handler }

def addEventHandler (event : Event) (eventGroup : EventgroupId) (eventHandler : Option η)
    (s : State η) : State η :=
  match eventHandler with
  | none => s
  | some itsHandler =>
    { s with
      eventHandlers :=
        Function.update s.eventHandlers event (insert itsHandler (s.eventHandlers event))
      subscriptions :=
        Function.update s.subscriptions event (insert eventGroup (s.subscriptions event))
      -- addSubscriptionStatusListener
      statusHandlers :=
        if eventGroup ∈ s.subscriptions event then s.statusHandlers
        else insert (event, eventGroup) s.statusHandlers }

def IsLast (s : State η) (event : Event) (eventHandler : η) : Prop :=
  s.eventHandlers event ≠ ∅ ∧ (s.eventHandlers event).erase eventHandler = ∅

instance (s : State η) (event : Event) (eventHandler : η) :
    Decidable (IsLast s event eventHandler) := by
  unfold IsLast
  infer_instance

def removeEventHandler (event : Event) (eventGroup : EventgroupId) (eventHandler : η)
    (s : State η) : State η :=
  let subscriptionStates :=
    match s.subscriptionStates.lookup (event, eventGroup) with
    | some itsWrapper =>
      s.subscriptionStates.insert (event, eventGroup) (itsWrapper.removeHandler eventHandler)
    | none => s.subscriptionStates
  if IsLast s event eventHandler then
    { s with
      eventHandlers := Function.update s.eventHandlers event ∅
      subscriptions := Function.update s.subscriptions event ∅
      subscriptionStates := subscriptionStates.erase (event, eventGroup)
      subscribed := s.subscribed.erase (event, eventGroup)
      statusHandlers := s.statusHandlers.erase (event, eventGroup) }
  else
    { s with
      eventHandlers :=
        Function.update s.eventHandlers event ((s.eventHandlers event).erase eventHandler)
      subscriptionStates := subscriptionStates }

def insertSubscriptionStatusListener (event : Event) (eventGroup : EventgroupId)
    (eventHandler : Option η) (tag : Tag) (s : State η) : State η :=
  match s.subscriptionStates.lookup (event, eventGroup) with
  | some itsWrapper =>
    { s with
      subscriptionStates :=
        s.subscriptionStates.insert (event, eventGroup) (itsWrapper.addHandler eventHandler tag) }
  | none =>
    { s with
      subscriptionStates := s.subscriptionStates.insert (event, eventGroup)
        (SubscriptionStatusWrapper.addHandler ⟨∅, []⟩ eventHandler tag) }

def subscribe (event : Event) (eventGroup : EventgroupId) (eventHandler : Option η) (tag : Tag)
    (major : MajorVersion) (s : State η) : State η :=
  let s := insertSubscriptionStatusListener event eventGroup eventHandler tag s
  { s with calls := s.calls ++ [(event, eventGroup, major)] }

def makeCall (event : Event) (eventGroup : EventgroupId) (major : MajorVersion) (s : State η) :
    State η :=
  { s with
    calls := s.calls.erase (event, eventGroup, major)
    subscribed := insert (event, eventGroup) s.subscribed }

def step (s : State η) : Action η → Option (State η)
  | .addEventHandler event eventGroup eventHandler =>
    some (addEventHandler event eventGroup eventHandler s)
  | .removeEventHandler event eventGroup eventHandler =>
    some (removeEventHandler event eventGroup eventHandler s)
  | .subscribe event eventGroup eventHandler tag major =>
    some (subscribe event eventGroup eventHandler tag major s)
  | .call event eventGroup major =>
    if (event, eventGroup, major) ∈ s.calls then some (makeCall event eventGroup major s) else none

def UndoneAt (s : State η) (event : Event) : Prop :=
  s.eventHandlers event = ∅ →
    s.subscriptions event = ∅ ∧ ∀ eventGroup, (event, eventGroup) ∉ s.subscriptionStates ∧
      (event, eventGroup) ∉ s.subscribed ∧ (event, eventGroup) ∉ s.statusHandlers

def Undone (s : State η) : Prop := ∀ event, UndoneAt s event

def OnlyGroup (s : State η) (event : Event) (eventGroup : EventgroupId) : Prop :=
  s.subscriptions event ⊆ {eventGroup} ∧
    (∀ k ∈ s.subscriptionStates.keys, k.1 = event → k.2 = eventGroup) ∧
    ∀ k ∈ s.subscribed, k.1 = event → k.2 = eventGroup

instance (s : State η) (event : Event) (eventGroup : EventgroupId) :
    Decidable (OnlyGroup s event eventGroup) :=
  @instDecidableAnd _ _ inferInstance
    (@instDecidableAnd _ _ (List.decidableBAll _ _) Finset.decidableDforallFinset)

/-- An event is subscribed while it has a handler, and its last handler goes when the event is in
    use under no eventgroup but the one that is named. -/
def Ordered (s : State η) : Action η → Prop
  | .addEventHandler _ _ _ => True
  | .removeEventHandler event eventGroup eventHandler =>
    IsLast s event eventHandler → OnlyGroup s event eventGroup
  | .subscribe event _ _ _ _ => s.eventHandlers event ≠ ∅
  | .call event _ _ => s.eventHandlers event ≠ ∅

instance (s : State η) (a : Action η) : Decidable (Ordered s a) := by
  cases a <;> unfold Ordered <;> infer_instance

end Steps

section Invariant
variable {η : Type} {s t : State η}

/-- The eventgroups that vsomeip has a status handler for are the ones in `subscriptions_`. -/
def Listened (s : State η) : Prop :=
  ∀ event eventGroup, eventGroup ∈ s.subscriptions event ↔ (event, eventGroup) ∈ s.statusHandlers

structure Good (s : State η) : Prop where
  undone : Undone s
  listened : Listened s

theorem initial_good : Good (initial : State η) where
  undone _ _ := ⟨rfl, fun _ =>
    ⟨AList.notMem_empty _, Finset.notMem_empty _, Finset.notMem_empty _⟩⟩
  listened _ _ := iff_of_false (Finset.notMem_empty _) (Finset.notMem_empty _)

theorem UndoneAt.same {event : Event} (h : UndoneAt s event)
    (hhandlers : t.eventHandlers event = s.eventHandlers event)
    (hsubs : t.subscriptions event = s.subscriptions event)
    (hstates : ∀ g, (event, g) ∈ t.subscriptionStates ↔ (event, g) ∈ s.subscriptionStates)
    (hsubscribed : ∀ g, (event, g) ∈ t.subscribed ↔ (event, g) ∈ s.subscribed)
    (hstatus : ∀ g, (event, g) ∈ t.statusHandlers ↔ (event, g) ∈ s.statusHandlers) :
    UndoneAt t event := by
  intro hnone
  obtain ⟨hempty, hrest⟩ := h (hhandlers ▸ hnone)
  refine ⟨hsubs.trans hempty, fun g => ?_⟩
  rw [hstates, hsubscribed, hstatus]
  exact hrest g

variable [DecidableEq η]

theorem add_good (h : Good s) (event : Event) (eventGroup : EventgroupId) (eventHandler : Option η) :
    Good (addEventHandler event eventGroup eventHandler s) := by
  unfold addEventHandler
  split
  · exact h
  · rename_i itsHandler
    refine ⟨fun e => ?_, fun e g => ?_⟩
    · by_cases he : e = event
      · subst he
        intro hnone
        exact absurd ((Function.update_self e _ s.eventHandlers).symm.trans hnone)
          (Finset.insert_ne_empty _ _)
      · refine (h.undone e).same (Function.update_of_ne he _ _) (Function.update_of_ne he _ _)
          (fun _ => Iff.rfl) (fun _ => Iff.rfl) fun g => ?_
        dsimp only
        split
        · exact Iff.rfl
        · exact Finset.mem_insert.trans
            ⟨fun hmem => hmem.resolve_left fun heq => he (congrArg Prod.fst heq), Or.inr⟩
    · have hold := h.listened e g
      dsimp only
      by_cases he : e = event
      · subst he
        rw [Function.update_self, Finset.mem_insert]
        split
        · rename_i hmem
          rw [← hold]
          exact ⟨fun hg => hg.elim (fun heq => heq ▸ hmem) id, Or.inr⟩
        · rw [Finset.mem_insert, ← hold, Prod.mk.injEq]
          simp
      · rw [Function.update_of_ne he, hold]
        split
        · exact Iff.rfl
        · rw [Finset.mem_insert, Prod.mk.injEq]
          exact ⟨Or.inr, fun hmem => hmem.resolve_left fun heq => he heq.1⟩

theorem mem_insertListener (event : Event) (eventGroup : EventgroupId) (eventHandler : Option η)
    (tag : Tag) (k : Event × EventgroupId) :
    k ∈ (insertSubscriptionStatusListener event eventGroup eventHandler tag s).subscriptionStates ↔
      k = (event, eventGroup) ∨ k ∈ s.subscriptionStates := by
  unfold insertSubscriptionStatusListener
  split <;> exact AList.mem_insert _

theorem insertListener_frame (event : Event) (eventGroup : EventgroupId) (eventHandler : Option η)
    (tag : Tag) :
    insertSubscriptionStatusListener event eventGroup eventHandler tag s =
      { s with
        subscriptionStates :=
          (insertSubscriptionStatusListener event eventGroup eventHandler tag s).subscriptionStates } := by
  unfold insertSubscriptionStatusListener
  split <;> rfl

theorem subscribe_good (h : Good s) {event : Event} (hheld : s.eventHandlers event ≠ ∅)
    (eventGroup : EventgroupId) (eventHandler : Option η) (tag : Tag) (major : MajorVersion) :
    Good (subscribe event eventGroup eventHandler tag major s) := by
  have hmem := mem_insertListener (s := s) event eventGroup eventHandler tag
  unfold subscribe
  rw [insertListener_frame]
  refine ⟨fun e => ?_, h.listened⟩
  by_cases he : e = event
  · subst he
    exact fun hnone => absurd hnone hheld
  · exact (h.undone e).same rfl rfl
      (fun g => (hmem (e, g)).trans
        ⟨fun hor => hor.resolve_left fun heq => he (congrArg Prod.fst heq), Or.inr⟩)
      (fun _ => Iff.rfl) fun _ => Iff.rfl

omit [DecidableEq η] in
theorem call_good (h : Good s) {event : Event} (hheld : s.eventHandlers event ≠ ∅)
    (eventGroup : EventgroupId) (major : MajorVersion) : Good (makeCall event eventGroup major s) := by
  refine ⟨fun e => ?_, h.listened⟩
  by_cases he : e = event
  · subst he
    exact fun hnone => absurd hnone hheld
  · refine (h.undone e).same rfl rfl (fun _ => Iff.rfl) (fun g => ?_) fun _ => Iff.rfl
    change (e, g) ∈ insert (event, eventGroup) s.subscribed ↔ (e, g) ∈ s.subscribed
    rw [Finset.mem_insert, Prod.mk.injEq]
    exact ⟨fun hmem => hmem.resolve_left fun heq => he heq.1, Or.inr⟩

/-- The status wrapper stays in its table, whoever leaves it. -/
theorem mem_removed (event : Event) (eventGroup : EventgroupId) (eventHandler : η)
    (k : Event × EventgroupId) :
    k ∈ (match s.subscriptionStates.lookup (event, eventGroup) with
      | some itsWrapper =>
        s.subscriptionStates.insert (event, eventGroup) (itsWrapper.removeHandler eventHandler)
      | none => s.subscriptionStates) ↔ k ∈ s.subscriptionStates := by
  split
  · rename_i itsWrapper hfound
    have hmem : (event, eventGroup) ∈ s.subscriptionStates :=
      AList.lookup_isSome.1 (by rw [hfound]; rfl)
    rw [AList.mem_insert]
    exact ⟨fun hor => hor.elim (fun heq => heq ▸ hmem) id, Or.inr⟩
  · exact Iff.rfl

theorem remove_good (h : Good s) {event : Event} {eventGroup : EventgroupId} {eventHandler : η}
    (hok : IsLast s event eventHandler → OnlyGroup s event eventGroup) :
    Good (removeEventHandler event eventGroup eventHandler s) := by
  have hmem := mem_removed (s := s) event eventGroup eventHandler
  unfold removeEventHandler
  dsimp only
  split
  · rename_i hlast
    obtain ⟨hsubs, hstates, hsubscribed⟩ := hok hlast
    refine ⟨fun e => ?_, fun e g => ?_⟩
    · by_cases he : e = event
      · subst he
        refine fun _ => ⟨Function.update_self _ _ _, fun g => ⟨fun hg => ?_, fun hg => ?_, fun hg => ?_⟩⟩
        · obtain ⟨hne, hin⟩ := AList.mem_erase.1 hg
          exact hne (Prod.ext rfl (hstates _ ((hmem _).1 hin) rfl))
        · obtain ⟨hne, hin⟩ := Finset.mem_erase.1 hg
          exact hne (Prod.ext rfl (hsubscribed _ hin rfl))
        · obtain ⟨hne, hin⟩ := Finset.mem_erase.1 hg
          exact hne (Prod.ext rfl (Finset.mem_singleton.1 (hsubs ((h.listened e g).2 hin))))
      · have hne : ∀ g, (e, g) ≠ (event, eventGroup) := fun g heq => he (congrArg Prod.fst heq)
        refine (h.undone e).same (Function.update_of_ne he _ _) (Function.update_of_ne he _ _)
          (fun g => ?_) (fun g => ?_) fun g => ?_
        · rw [AList.mem_erase, hmem]
          exact ⟨And.right, fun hin => ⟨hne g, hin⟩⟩
        · exact Finset.mem_erase.trans ⟨And.right, fun hin => ⟨hne g, hin⟩⟩
        · exact Finset.mem_erase.trans ⟨And.right, fun hin => ⟨hne g, hin⟩⟩
    · dsimp only
      rw [Finset.mem_erase, ← h.listened e g]
      by_cases he : e = event
      · subst he
        rw [Function.update_self]
        exact ⟨fun hin => absurd hin (Finset.notMem_empty _),
          fun ⟨hne, hin⟩ => (hne (Prod.ext rfl (Finset.mem_singleton.1 (hsubs hin)))).elim⟩
      · rw [Function.update_of_ne he]
        exact ⟨fun hin => ⟨fun heq => he (congrArg Prod.fst heq), hin⟩, And.right⟩
  · rename_i hlast
    refine ⟨fun e => ?_, h.listened⟩
    by_cases he : e = event
    · subst he
      intro hnone
      have hleft : (s.eventHandlers e).erase eventHandler = ∅ :=
        (Function.update_self e _ s.eventHandlers).symm.trans hnone
      have hbefore : s.eventHandlers e = ∅ := by
        by_contra hne
        exact hlast ⟨hne, hleft⟩
      obtain ⟨hempty, hrest⟩ := h.undone e hbefore
      refine ⟨hempty, fun g => ⟨fun hg => (hrest g).1 ((hmem _).1 hg), (hrest g).2⟩⟩
    · exact (h.undone e).same (Function.update_of_ne he _ _) rfl (fun g => hmem _)
        (fun _ => Iff.rfl) fun _ => Iff.rfl

theorem step_good {a : Action η} (h : Good s) (hok : Ordered s a) (hstep : step s a = some t) :
    Good t := by
  cases a with
  | addEventHandler event eventGroup eventHandler =>
    cases hstep
    exact add_good h event eventGroup eventHandler
  | removeEventHandler event eventGroup eventHandler =>
    cases hstep
    exact remove_good h hok
  | subscribe event eventGroup eventHandler tag major =>
    cases hstep
    exact subscribe_good h hok eventGroup eventHandler tag major
  | call event eventGroup major =>
    change (if (event, eventGroup, major) ∈ s.calls then _ else _) = _ at hstep
    split at hstep
    · cases hstep
      exact call_good h hok eventGroup major
    · cases hstep

/-- A step after which nothing is left of the events without handlers is an ordered one. -/
theorem ordered_of_undone {a : Action η} (h : Good s) (hstep : step s a = some t) (hundone : Undone t) :
    Ordered s a := by
  cases a with
  | addEventHandler event eventGroup eventHandler => trivial
  | removeEventHandler event eventGroup eventHandler =>
    cases hstep
    intro hlast
    have hmem := mem_removed (s := s) event eventGroup eventHandler
    have hnothing := hundone event
    unfold removeEventHandler at hnothing
    dsimp only at hnothing
    rw [if_pos hlast] at hnothing
    obtain ⟨-, hrest⟩ := hnothing (Function.update_self _ _ _)
    refine ⟨fun g hg => ?_, fun k hk he => ?_, fun k hk he => ?_⟩
    · rw [Finset.mem_singleton]
      by_contra hne
      refine (hrest g).2.2 (Finset.mem_erase.2 ⟨fun heq => hne (congrArg Prod.snd heq), ?_⟩)
      exact (h.listened event g).1 hg
    · by_contra hne
      subst he
      exact (hrest k.2).1 (AList.mem_erase.2 ⟨fun heq => hne (congrArg Prod.snd heq), (hmem k).2 hk⟩)
    · by_contra hne
      subst he
      exact (hrest k.2).2.1 (Finset.mem_erase.2 ⟨fun heq => hne (congrArg Prod.snd heq), hk⟩)
  | subscribe event eventGroup eventHandler tag major =>
    cases hstep
    intro hnone
    have hmem := mem_insertListener (s := s) event eventGroup eventHandler tag (event, eventGroup)
    have hnothing := hundone event
    unfold subscribe at hnothing
    rw [insertListener_frame] at hnothing
    exact ((hnothing hnone).2 eventGroup).1 (hmem.2 (Or.inl rfl))
  | call event eventGroup major =>
    change (if (event, eventGroup, major) ∈ s.calls then _ else _) = _ at hstep
    split at hstep
    · cases hstep
      exact fun hnone => ((hundone event hnone).2 eventGroup).2.1 (Finset.mem_insert_self _ _)
    · cases hstep

/-- Along a run nothing is ever left of an event without handlers, if and only if the steps of the
    run are ordered. -/
theorem subscriptions_undone_iff {as : List (Action η)} (hrun : run step initial as = some t) :
    Along step Undone initial as ↔ Meets step Ordered initial as :=
  along_iff_meets hrun initial_good (fun _ h => h.undone) (fun _ _ _ => step_good)
    fun _ _ _ => ordered_of_undone

end Invariant

def twoHandlers : List (Action ℕ) :=
  [.addEventHandler (1, 1, 0x8001) 1 (some 1), .subscribe (1, 1, 0x8001) 1 (some 1) 0 1,
    .call (1, 1, 0x8001) 1 1, .addEventHandler (1, 1, 0x8001) 1 (some 2),
    .removeEventHandler (1, 1, 0x8001) 1 1, .removeEventHandler (1, 1, 0x8001) 1 2]

theorem two_handlers_undone :
    (run step initial twoHandlers).isSome ∧ Along step Undone initial twoHandlers := by
  have hrun : (run step initial twoHandlers).isSome := by decide
  obtain ⟨t, ht⟩ := Option.isSome_iff_exists.1 hrun
  exact ⟨hrun, (subscriptions_undone_iff ht).2 (by decide)⟩

def twoGroups : List (Action ℕ) :=
  [.addEventHandler (1, 1, 0x8001) 1 (some 1), .addEventHandler (1, 1, 0x8001) 2 (some 2),
    .removeEventHandler (1, 1, 0x8001) 1 1, .removeEventHandler (1, 1, 0x8001) 2 2]

theorem two_groups_left :
    ¬ ∀ s : State ℕ, Reachable step Free initial s → Undone s := by
  intro h
  obtain ⟨s, hrun, hnone, hleft⟩ : ∃ s : State ℕ, run step initial twoGroups = some s ∧
      s.eventHandlers (1, 1, 0x8001) = ∅ ∧ ((1, 1, 0x8001), 1) ∈ s.statusHandlers :=
    ⟨_, rfl, by decide, by decide⟩
  exact ((h s (reachable_of_run hrun) _ hnone).2 1).2.2 hleft

end SomeIPRuntime.EventSubscriptions
