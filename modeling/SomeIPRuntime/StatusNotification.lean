import SomeIPRuntime.ProxyStatus

set_option autoImplicit false

namespace SomeIPRuntime.StatusNotification
open ProxyStatus (AvailabilityStatus)
variable {κ : Type}

/-- What the loop does: it visits an element, or a position behind the last one. A listener that is
    visited is notified, and unsubscribes what it likes. -/
inductive Event (κ : Type)
  | notifySpecificListener (subscription : κ) (status : AvailabilityStatus)
  | outside
  | unsubscribe (subscription : κ)
  deriving DecidableEq

@[ext]
structure Listeners (κ : Type) where
  subscriptions : List κ
  nodup : subscriptions.Nodup

structure State (κ : Type) where
  availabilityStatus : AvailabilityStatus
  listeners : Listeners κ

def eventsOf (unsubscribes : κ → List κ) (status : AvailabilityStatus) (subscription : κ) :
    List (Event κ) :=
  .notifySpecificListener subscription status :: (unsubscribes subscription).map .unsubscribe

theorem outside_not_mem_eventsOf (unsubscribes : κ → List κ) (status : AvailabilityStatus)
    (subscription : κ) : Event.outside ∉ eventsOf unsubscribes status subscription := by
  simp [eventsOf]

section Loop
variable [DecidableEq κ]

def onListenerRemoved (listeners : Listeners κ) (subscription : κ) : Listeners κ :=
  ⟨listeners.subscriptions.filter fun other => other ≠ subscription, listeners.nodup.filter _⟩

/-- A callback unsubscribes the listeners that `unsubscribes` says. -/
def callback (unsubscribes : κ → List κ) (subscription : κ) (listeners : Listeners κ) : Listeners κ :=
  (unsubscribes subscription).foldl onListenerRemoved listeners

/-- The rest of the loop, with `toGo` positions from the one that is next. What happens behind the last
    element is undefined. -/
def notifyListeners (unsubscribes : κ → List κ) (status : AvailabilityStatus) :
    (toGo next : ℕ) → Listeners κ → Listeners κ × List (Event κ)
  | 0, _, listeners => (listeners, [])
  | toGo + 1, next, listeners =>
    match listeners.subscriptions[next]? with
    | none => (listeners, [.outside])
    | some subscription =>
      let rest := notifyListeners unsubscribes status toGo (next + 1)
        (callback unsubscribes subscription listeners)
      (rest.1, .notifySpecificListener subscription status ::
        ((unsubscribes subscription).map .unsubscribe ++ rest.2))

def onServiceInstanceStatus (unsubscribes : κ → List κ) (isAvailable : Bool) (s : State κ) :
    State κ × List (Event κ) :=
  if s.availabilityStatus = .of isAvailable then (s, [])
  else
    let result := notifyListeners unsubscribes (.of isAvailable) s.listeners.subscriptions.length 0
      s.listeners
    (⟨.of isAvailable, result.1⟩, result.2)

def Event.notified : Event κ → Option κ
  | .notifySpecificListener subscription _ => some subscription
  | _ => none

/-- Only elements of `listeners_` are visited, none after it was unsubscribed, and the listeners that
    stay are notified once. -/
structure Tolerates (listeners : Listeners κ) (events : List (Event κ)) : Prop where
  inside : .outside ∉ events
  listed : ∀ subscription ∈ events.filterMap Event.notified, subscription ∈ listeners.subscriptions
  notAfter : events.Pairwise fun earlier later =>
    ∀ subscription, earlier = .unsubscribe subscription → later.notified ≠ some subscription
  once : ∀ subscription ∈ listeners.subscriptions, .unsubscribe subscription ∉ events →
    (events.filterMap Event.notified).count subscription = 1

/-- No listener but the last one unsubscribes a listener. -/
def Quiet (unsubscribes : κ → List κ) (listeners : List κ) : Prop :=
  ∀ subscription ∈ listeners.dropLast, ∀ other ∈ unsubscribes subscription, other ∉ listeners

instance (unsubscribes : κ → List κ) (listeners : List κ) : Decidable (Quiet unsubscribes listeners) :=
  inferInstanceAs (Decidable (∀ _ ∈ _, _))

variable {unsubscribes : κ → List κ} {status : AvailabilityStatus} {listeners : Listeners κ}

theorem foldl_onListenerRemoved (removed : List κ) (listeners : Listeners κ) :
    (removed.foldl onListenerRemoved listeners).subscriptions =
      listeners.subscriptions.filter fun other => other ∉ removed := by
  induction removed generalizing listeners with
  | nil => simp
  | cons first rest ih =>
    rw [List.foldl_cons, ih, onListenerRemoved, List.filter_filter]
    apply List.filter_congr
    intro other _
    simp only [List.mem_cons, not_or, ne_eq, Bool.decide_and, Bool.and_comm]

theorem callback_same {subscription : κ}
    (h : ∀ other ∈ unsubscribes subscription, other ∉ listeners.subscriptions) :
    callback unsubscribes subscription listeners = listeners := by
  apply Listeners.ext
  unfold callback
  rw [foldl_onListenerRemoved, List.filter_eq_self]
  intro other hother
  exact decide_eq_true fun hremoved => h other hremoved hother

theorem callback_length (unsubscribes : κ → List κ) (listeners : Listeners κ) (subscription : κ) :
    (callback unsubscribes subscription listeners).subscriptions.length ≤
      listeners.subscriptions.length := by
  unfold callback
  rw [foldl_onListenerRemoved]
  exact List.length_filter_le _ _

/-- A callback that removes a listener makes the vector shorter. -/
theorem callback_shorter {subscription other : κ} (hother : other ∈ unsubscribes subscription)
    (hmem : other ∈ listeners.subscriptions) :
    (callback unsubscribes subscription listeners).subscriptions.length <
      listeners.subscriptions.length := by
  unfold callback
  rw [foldl_onListenerRemoved]
  refine List.length_filter_lt_length_iff_exists.2 ⟨other, hmem, ?_⟩
  simpa using hother

theorem notifyListeners_some {toGo next : ℕ} {subscription : κ}
    (h : listeners.subscriptions[next]? = some subscription) :
    (notifyListeners unsubscribes status (toGo + 1) next listeners).2 =
      eventsOf unsubscribes status subscription ++
        (notifyListeners unsubscribes status toGo (next + 1)
          (callback unsubscribes subscription listeners)).2 := by
  rw [notifyListeners, h]
  rfl

theorem notifyListeners_none {toGo next : ℕ} (h : listeners.subscriptions[next]? = none) :
    (notifyListeners unsubscribes status (toGo + 1) next listeners).2 = [.outside] := by
  rw [notifyListeners, h]

/-- The loop leaves the vector when that has become shorter before the last round. -/
theorem outside_of_shorter {toGo next : ℕ} (hpos : 0 < toGo)
    (hshort : listeners.subscriptions.length < next + toGo) :
    .outside ∈ (notifyListeners unsubscribes status toGo next listeners).2 := by
  induction toGo generalizing next listeners with
  | zero => exact absurd hpos (lt_irrefl 0)
  | succ toGo ih =>
    cases hnext : listeners.subscriptions[next]? with
    | none =>
      rw [notifyListeners_none hnext]
      exact List.mem_singleton_self _
    | some subscription =>
      have hlt := (List.getElem?_eq_some_iff.1 hnext).1
      have hle := callback_length unsubscribes listeners subscription
      rw [notifyListeners_some hnext]
      exact List.mem_append_right _ (ih (by omega) (by omega))

/-- The loop stays inside just if the vector stays as it is up to the last round. -/
theorem inside_iff {toGo next : ℕ} (hlength : next + toGo = listeners.subscriptions.length) :
    .outside ∉ (notifyListeners unsubscribes status toGo next listeners).2 ↔
      ∀ subscription ∈ (listeners.subscriptions.drop next).dropLast,
        ∀ other ∈ unsubscribes subscription, other ∉ listeners.subscriptions := by
  induction toGo generalizing next with
  | zero =>
    rw [List.drop_eq_nil_of_le (by omega)]
    exact iff_of_true List.not_mem_nil fun _ h => absurd h List.not_mem_nil
  | succ toGo ih =>
    have hlt : next < listeners.subscriptions.length := by omega
    rw [notifyListeners_some (List.getElem?_eq_getElem hlt), List.mem_append, or_iff_right (outside_not_mem_eventsOf _ _ _), List.drop_eq_getElem_cons hlt]
    cases toGo with
    | zero =>
      rw [List.drop_eq_nil_of_le (by omega)]
      exact iff_of_true List.not_mem_nil fun _ h => absurd h List.not_mem_nil
    | succ toGo =>
      have hne : listeners.subscriptions.drop (next + 1) ≠ [] := by
        rw [Ne, List.drop_eq_nil_iff]
        omega
      rw [List.dropLast_cons_of_ne_nil hne, List.forall_mem_cons]
      by_cases hremoves : ∃ other ∈ unsubscribes listeners.subscriptions[next],
          other ∈ listeners.subscriptions
      · rcases hremoves with ⟨other, hother, hmem⟩
        have hshort := callback_shorter hother hmem
        refine iff_of_false (not_not_intro (outside_of_shorter (Nat.succ_pos _) (by omega))) ?_
        exact fun h => h.1 other hother hmem
      · push Not at hremoves
        rw [callback_same hremoves, and_iff_right hremoves]
        exact ih (by omega)

/-- As long as the vector stays as it is, its elements are visited in order. -/
theorem notifyListeners_quiet {toGo next : ℕ} (hlength : next + toGo = listeners.subscriptions.length)
    (hquiet : ∀ subscription ∈ (listeners.subscriptions.drop next).dropLast,
      ∀ other ∈ unsubscribes subscription, other ∉ listeners.subscriptions) :
    (notifyListeners unsubscribes status toGo next listeners).2 =
      (listeners.subscriptions.drop next).flatMap (eventsOf unsubscribes status) := by
  induction toGo generalizing next with
  | zero =>
    rw [List.drop_eq_nil_of_le (by omega)]
    rfl
  | succ toGo ih =>
    have hlt : next < listeners.subscriptions.length := by omega
    rw [notifyListeners_some (List.getElem?_eq_getElem hlt)]
    rw [List.drop_eq_getElem_cons hlt] at hquiet ⊢
    rw [List.flatMap_cons]
    cases toGo with
    | zero =>
      rw [List.drop_eq_nil_of_le (by omega)]
      rfl
    | succ toGo =>
      have hne : listeners.subscriptions.drop (next + 1) ≠ [] := by
        rw [Ne, List.drop_eq_nil_iff]
        omega
      rw [List.dropLast_cons_of_ne_nil hne, List.forall_mem_cons] at hquiet
      rw [callback_same hquiet.1, ih (by omega) hquiet.2]

omit [DecidableEq κ] in
theorem filterMap_eventsOf (listeners : List κ) :
    (listeners.flatMap (eventsOf unsubscribes status)).filterMap Event.notified = listeners := by
  rw [List.filterMap_flatMap]
  have hone : ∀ subscription,
      (eventsOf unsubscribes status subscription).filterMap Event.notified = [subscription] := by
    intro subscription
    have hnone : ((unsubscribes subscription).map Event.unsubscribe).filterMap Event.notified = [] := by
      rw [List.filterMap_map]
      exact List.filterMap_eq_nil_iff.2 fun _ _ => rfl
    rw [eventsOf, List.filterMap_cons, hnone]
    rfl
  rw [List.flatMap_congr fun subscription _ => hone subscription, List.flatMap_singleton']

omit [DecidableEq κ] in
/-- Who is notified later is unsubscribed by none of the earlier ones, which are not the last. -/
theorem notAfter_of_quiet (hquiet : Quiet unsubscribes listeners.subscriptions) :
    (listeners.subscriptions.flatMap (eventsOf unsubscribes status)).Pairwise fun earlier later =>
      ∀ subscription, earlier = .unsubscribe subscription → later.notified ≠ some subscription := by
  rw [List.pairwise_flatMap]
  constructor
  · intro first _
    refine List.pairwise_cons.2 ⟨nofun, ?_⟩
    rw [List.pairwise_map]
    exact List.pairwise_of_forall fun _ _ _ _ => nofun
  · rw [List.pairwise_iff_getElem]
    intro i j hi hj hij earlier hearlier later hlater subscription hunsubscribe hnotified
    subst hunsubscribe
    have hlast : listeners.subscriptions[i] ∈ listeners.subscriptions.dropLast := by
      rw [List.mem_iff_getElem]
      exact ⟨i, by rw [List.length_dropLast]; omega, List.getElem_dropLast _⟩
    have hremoved : subscription ∈ unsubscribes listeners.subscriptions[i] := by
      simpa [eventsOf] using hearlier
    have hsame : subscription = listeners.subscriptions[j] := by
      rcases List.mem_cons.1 hlater with rfl | hmem
      · exact (Option.some.inj hnotified).symm
      · rcases List.mem_map.1 hmem with ⟨_, _, rfl⟩
        cases hnotified
    exact hquiet _ hlast _ hremoved (hsame ▸ List.getElem_mem hj)

theorem tolerates_of_quiet (hquiet : Quiet unsubscribes listeners.subscriptions) :
    Tolerates listeners (listeners.subscriptions.flatMap (eventsOf unsubscribes status)) where
  inside := by
    rw [List.mem_flatMap]
    rintro ⟨subscription, _, hmem⟩
    exact outside_not_mem_eventsOf _ _ _ hmem
  listed subscription hmem := by
    rwa [filterMap_eventsOf] at hmem
  notAfter := notAfter_of_quiet hquiet
  once subscription hmem _ := by
    rw [filterMap_eventsOf]
    exact List.count_eq_one_of_mem listeners.nodup hmem

/-- A change of the status is notified as it should be just if no listener but the last one unsubscribes
    a listener. -/
theorem unsubscription_tolerated_iff (unsubscribes : κ → List κ) (isAvailable : Bool) (s : State κ)
    (hchange : s.availabilityStatus ≠ .of isAvailable) :
    Tolerates s.listeners (onServiceInstanceStatus unsubscribes isAvailable s).2 ↔
      Quiet unsubscribes s.listeners.subscriptions := by
  unfold onServiceInstanceStatus
  rw [if_neg hchange]
  dsimp only
  have hlength : 0 + s.listeners.subscriptions.length = s.listeners.subscriptions.length :=
    Nat.zero_add _
  constructor
  · exact fun h => (inside_iff hlength).1 h.inside
  · intro hquiet
    rw [notifyListeners_quiet hlength hquiet]
    exact tolerates_of_quiet hquiet

end Loop

/-- The last listener unsubscribes itself and another one. -/
theorem last_unsubscribes_tolerated :
    Tolerates (κ := ℕ) ⟨[1, 2, 3], by decide⟩
      (onServiceInstanceStatus (fun subscription => if subscription = 3 then [3, 1] else []) false
        ⟨.available, [1, 2, 3], by decide⟩).2 :=
  (unsubscription_tolerated_iff _ false ⟨.available, [1, 2, 3], by decide⟩ (by decide)).2 (by decide)

/-- The first listener unsubscribes itself: the second one is skipped, and the loop leaves the vector. -/
theorem first_unsubscribes_skips :
    ¬ ∀ (unsubscribes : ℕ → List ℕ) (isAvailable : Bool) (s : State ℕ),
      s.availabilityStatus ≠ .of isAvailable →
        Tolerates s.listeners (onServiceInstanceStatus unsubscribes isAvailable s).2 := by
  intro h
  have hone : (onServiceInstanceStatus (fun subscription => if subscription = 1 then [1] else []) true
      ⟨.unknown, [1, 2], by decide⟩).2 =
        [.notifySpecificListener 1 .available, .unsubscribe 1, .outside] := by decide
  have htolerates := h (fun subscription => if subscription = 1 then [1] else []) true
    ⟨.unknown, [1, 2], by decide⟩ (by decide)
  rw [hone] at htolerates
  exact htolerates.inside (by decide)

end SomeIPRuntime.StatusNotification
