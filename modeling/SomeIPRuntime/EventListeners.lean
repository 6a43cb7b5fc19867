import SomeIPRuntime.ArgumentRoundTrip
import SomeIPRuntime.MethodCalls
import SomeIPRuntime.SendingPaths

set_option autoImplicit false

namespace SomeIPRuntime.EventListeners
open Bits Deployment
open OutputStream (Write)
open Serialization MethodCalls ProgramRuns StepSystems TypedValues

abbrev Subscription := BitVec 32

inductive Notification (α : Type)
  | notifySpecificListener (subscription : Subscription) (arguments : α)
  | notifySpecificError (subscription : Subscription) (callStatus : CallStatus)
  | notifyListeners (arguments : α)
  | notifyErrorListeners (callStatus : CallStatus)

section Messages
variable {α : Type}

/-- The notifications for a message, and the listeners that still wait. `deserialize` reads the
    arguments of the message. -/
def handleEventMessage (deserialize : VsomeipMessage → Except Halt (Bool × α)) (message : VsomeipMessage)
    (isInitialValue : Bool) (listeners : Finset Subscription) :
    Except Halt (List (Notification α) × Finset Subscription) := do
  let (success, itsArguments) ← deserialize message
  if success then
    if isInitialValue then
      let subscribers := listeners.sort (· ≤ ·)
      if !message.isValidCrc then pure (subscribers.map (.notifySpecificError · .invalidValue), ∅)
      else pure (subscribers.map (.notifySpecificListener · itsArguments), ∅)
    else if !message.isValidCrc then pure ([.notifyErrorListeners .invalidValue], listeners)
    else pure ([.notifyListeners itsArguments], ∅)
  else pure ([], listeners)

def Notification.IsFor (subscription : Subscription) : Notification α → Prop
  | .notifySpecificListener other _ | .notifySpecificError other _ => other = subscription
  | .notifyListeners _ | .notifyErrorListeners _ => False

instance (subscription : Subscription) : DecidablePred (Notification.IsFor subscription (α := α))
  | .notifySpecificListener other _ | .notifySpecificError other _ => inferInstanceAs (Decidable (other = subscription))
  | .notifyListeners _ | .notifyErrorListeners _ => .isFalse id

def Notification.isForAll : Notification α → Bool
  | .notifyListeners _ => true
  | _ => false

end Messages

/-- `pending` are the notifications that a thread is still to make, `notified` those that were made.
    `added` and `superseded` say which subscriptions there have been, and which of them have lost their
    place to a notification for all. -/
structure State (ι α : Type) where
  listeners : Finset Subscription
  pending : ι → List (Notification α)
  notified : List (Notification α)
  added : Finset Subscription
  superseded : Finset Subscription

def initial {ι α : Type} : State ι α := ⟨∅, fun _ => [], [], ∅, ∅⟩

inductive Action (ι : Type)
  | onListenerAdded (subscription : Subscription)
  | handleEventMessage (thread : ι) (message : VsomeipMessage) (isInitialValue : Bool)
  | notify (thread : ι)

section Steps
variable {ι α : Type} [DecidableEq ι] (deserialize : VsomeipMessage → Except Halt (Bool × α))

def step (s : State ι α) : Action ι → Option (State ι α)
  | .onListenerAdded subscription =>
    some { s with listeners := insert subscription s.listeners, added := insert subscription s.added }
  | .handleEventMessage thread message isInitialValue =>
    match s.pending thread, EventListeners.handleEventMessage deserialize message isInitialValue s.listeners with
    | [], .ok (notifications, listeners) =>
      some { s with
        listeners := listeners
        pending := Function.update s.pending thread notifications
        superseded := if notifications.any Notification.isForAll then s.superseded ∪ s.listeners else s.superseded }
    | _, _ => none
  | .notify thread =>
    match s.pending thread with
    | notification :: rest =>
      some { s with
        pending := Function.update s.pending thread rest
        notified := notification :: s.notified }
    | [] => none

def Fresh (s : State ι α) : Action ι → Prop
  | .onListenerAdded subscription => subscription ∉ s.added
  | _ => True

instance (s : State ι α) : (a : Action ι) → Decidable (Fresh s a)
  | .onListenerAdded subscription => inferInstanceAs (Decidable (subscription ∉ s.added))
  | .handleEventMessage _ _ _ | .notify _ => .isTrue trivial

end Steps

section Count
variable {α : Type} {deserialize : VsomeipMessage → Except Halt (Bool × α)} {message : VsomeipMessage}
  {isInitialValue : Bool} {listeners rest : Finset Subscription} {notifications : List (Notification α)}

def specific (subscription : Subscription) (notifications : List (Notification α)) : ℕ :=
  notifications.countP fun notification => notification.IsFor subscription

theorem specific_map {notify : Subscription → Notification α}
    (hnotify : ∀ one other, (notify one).IsFor other ↔ one = other) (listeners : Finset Subscription)
    (subscription : Subscription) :
    specific subscription ((listeners.sort (· ≤ ·)).map notify) = if subscription ∈ listeners then 1 else 0 := by
  have hcount : specific subscription ((listeners.sort (· ≤ ·)).map notify) =
      (listeners.sort (· ≤ ·)).count subscription := by
    unfold specific
    rw [List.countP_map, List.count_eq_countP]
    apply List.countP_congr
    intro one _
    simp only [Function.comp_apply, decide_eq_true_eq, beq_iff_eq]
    exact hnotify one subscription
  rw [hcount]
  split
  · rename_i hmem
    exact List.count_eq_one_of_mem (Finset.sort_nodup _ _) ((Finset.mem_sort _).2 hmem)
  · rename_i hmem
    exact List.count_eq_zero.2 fun h => hmem ((Finset.mem_sort _).1 h)

theorem forAll_map {notify : Subscription → Notification α} (hnotify : ∀ one, (notify one).isForAll = false)
    (subscribers : List Subscription) : (subscribers.map notify).any Notification.isForAll = false := by
  rw [List.any_map, List.any_eq_false]
  intro one _
  rw [Function.comp_apply, hnotify]
  exact Bool.false_ne_true

inductive Handling (listeners rest : Finset Subscription) (notifications : List (Notification α)) : Prop
  | leaves (hrest : rest = listeners) (hall : notifications.any Notification.isForAll = false)
      (hspecific : ∀ subscription, specific subscription notifications = 0)
  | serves (hrest : rest = ∅) (hall : notifications.any Notification.isForAll = false)
      (hspecific : ∀ subscription, specific subscription notifications = if subscription ∈ listeners then 1 else 0)
  | supersedes (hrest : rest = ∅) (hall : notifications.any Notification.isForAll = true)
      (hspecific : ∀ subscription, specific subscription notifications = 0)

theorem handleEventMessage_read {itsArguments : α} (hread : deserialize message = .ok (true, itsArguments)) :
    handleEventMessage deserialize message isInitialValue listeners =
      .ok (match isInitialValue, message.isValidCrc with
        | true, true => ((listeners.sort (· ≤ ·)).map (.notifySpecificListener · itsArguments), ∅)
        | true, false => ((listeners.sort (· ≤ ·)).map (.notifySpecificError · .invalidValue), ∅)
        | false, true => ([.notifyListeners itsArguments], ∅)
        | false, false => ([.notifyErrorListeners .invalidValue], listeners)) := by
  unfold handleEventMessage
  rw [hread]
  change (if isInitialValue = true then _ else _ : Except Halt _) = _
  cases isInitialValue <;> cases message.isValidCrc <;> rfl

theorem handleEventMessage_handling
    (h : handleEventMessage deserialize message isInitialValue listeners = .ok (notifications, rest)) :
    Handling listeners rest notifications := by
  cases hread : deserialize message with
  | error halt =>
    unfold handleEventMessage at h
    rw [hread] at h
    cases h
  | ok result =>
    rcases result with ⟨success, itsArguments⟩
    cases success with
    | false =>
      unfold handleEventMessage at h
      rw [hread] at h
      cases h
      exact .leaves rfl rfl fun _ => rfl
    | true =>
      rw [handleEventMessage_read hread] at h
      cases isInitialValue <;> cases hvalid : message.isValidCrc <;> rw [hvalid] at h <;> cases h
      · exact .leaves rfl rfl fun _ => rfl
      · exact .supersedes rfl rfl fun _ => rfl
      · exact .serves rfl (forAll_map (fun _ => rfl) _) fun subscription =>
          specific_map (fun _ _ => Iff.rfl) listeners subscription
      · exact .serves rfl (forAll_map (fun _ => rfl) _) fun subscription =>
          specific_map (fun _ _ => Iff.rfl) listeners subscription

end Count

section Invariant
variable {ι α : Type} [DecidableEq ι] [Fintype ι] {deserialize : VsomeipMessage → Except Halt (Bool × α)}
  {s t : State ι α} {subscription : Subscription}

def within (subscriptions : Finset Subscription) (subscription : Subscription) : ℕ :=
  if subscription ∈ subscriptions then 1 else 0

theorem within_insert (subscriptions : Finset Subscription) (added subscription : Subscription) :
    within (insert added subscriptions) subscription =
      if subscription = added then 1 else within subscriptions subscription := by
  by_cases h : subscription = added <;> simp [within, h]

theorem within_union (first second : Finset Subscription)
    (h : within first subscription + within second subscription ≤ 1) :
    within (first ∪ second) subscription = within first subscription + within second subscription := by
  unfold within at h ⊢
  by_cases hfirst : subscription ∈ first <;> by_cases hsecond : subscription ∈ second <;> simp_all

theorem within_le (subscriptions : Finset Subscription) : within subscriptions subscription ≤ 1 := by
  unfold within
  split <;> omega

def State.served (s : State ι α) (subscription : Subscription) : ℕ :=
  specific subscription s.notified + ∑ thread, specific subscription (s.pending thread)

def State.places (s : State ι α) (subscription : Subscription) : ℕ :=
  within s.listeners subscription + s.served subscription + within s.superseded subscription

theorem sum_update {β : Type} (f : β → ℕ) (pending : ι → β) (thread : ι) (later : β) :
    ∑ i, f (Function.update pending thread later i) + f (pending thread) = ∑ i, f (pending i) + f later := by
  rw [← Finset.add_sum_erase _ _ (Finset.mem_univ thread), ← Finset.add_sum_erase _ _ (Finset.mem_univ thread),
    Function.update_self]
  have hrest : ∑ i ∈ Finset.univ.erase thread, f (Function.update pending thread later i) =
      ∑ i ∈ Finset.univ.erase thread, f (pending i) := by
    apply Finset.sum_congr rfl
    intro i hi
    rw [Function.update_of_ne (Finset.ne_of_mem_erase hi)]
  omega

theorem step_places {a : Action ι} (h : ∀ subscription, s.places subscription = within s.added subscription)
    (hfresh : Fresh s a) (hstep : step deserialize s a = some t) (subscription : Subscription) :
    t.places subscription = within t.added subscription := by
  have hbefore := h subscription
  unfold State.places at hbefore
  cases a with
  | onListenerAdded added =>
    cases hstep
    change within (insert added s.listeners) subscription + s.served subscription +
      within s.superseded subscription = within (insert added s.added) subscription
    rw [within_insert, within_insert]
    split
    · rename_i hsame
      have hnew : within s.added subscription = 0 := if_neg (hsame ▸ hfresh)
      omega
    · exact hbefore
  | handleEventMessage thread message isInitialValue =>
    dsimp only [step] at hstep
    split at hstep
    · rename_i notifications rest hidle hrun
      cases hstep
      have hserved : ({ s with pending := Function.update s.pending thread notifications } : State ι α).served
          subscription = s.served subscription + specific subscription notifications := by
        have hsum := sum_update (specific subscription) s.pending thread notifications
        rw [hidle, show specific subscription ([] : List (Notification α)) = 0 from rfl] at hsum
        unfold State.served
        dsimp only
        omega
      change within rest subscription +
        ({ s with pending := Function.update s.pending thread notifications } : State ι α).served subscription +
        within (if notifications.any Notification.isForAll then s.superseded ∪ s.listeners else s.superseded)
          subscription = within s.added subscription
      rw [hserved]
      have hnone : within (∅ : Finset Subscription) subscription = 0 := if_neg (Finset.notMem_empty subscription)
      have hone : within s.added subscription ≤ 1 := within_le s.added
      cases handleEventMessage_handling hrun with
      | leaves hrest hall hspecific =>
        rw [hrest, hall, hspecific]
        exact hbefore
      | serves hrest hall hspecific =>
        rw [hrest, hall, hspecific, hnone, if_neg Bool.false_ne_true]
        unfold within at hbefore ⊢
        omega
      | supersedes hrest hall hspecific =>
        rw [hrest, hall, hspecific, hnone, if_pos rfl, within_union _ _ (by omega)]
        omega
    · cases hstep
  | notify thread =>
    dsimp only [step] at hstep
    split at hstep
    · rename_i notification rest hpending
      cases hstep
      have hserved : ({ s with
          pending := Function.update s.pending thread rest
          notified := notification :: s.notified } : State ι α).served subscription = s.served subscription := by
        have hsum := sum_update (specific subscription) s.pending thread rest
        rw [hpending] at hsum
        have hfirst : specific subscription (notification :: rest) + specific subscription s.notified =
            specific subscription rest + specific subscription (notification :: s.notified) := by
          unfold specific
          rw [List.countP_cons, List.countP_cons]
          omega
        unfold State.served
        dsimp only
        omega
      change within s.listeners subscription + _ + within s.superseded subscription = _
      rw [hserved]
      exact hbefore
    · cases hstep

/-- However listeners are added and threads handle messages, each subscription is in one place: it still
    waits, is notified alone once, or has been overtaken by a notification for all. -/
theorem subscriptions_have_one_place (h : Reachable (step deserialize) Fresh initial s) :
    ∀ subscription ∈ s.added, s.places subscription = 1 := by
  intro subscription hadded
  have hplaces : ∀ subscription, s.places subscription = within s.added subscription := by
    apply h.invariant
    · intro subscription
      simp [State.places, State.served, specific, within, initial]
    · exact fun _ _ _ h hok hstep => step_places h hok hstep
  exact (hplaces subscription).trans (if_pos hadded)

end Invariant

/-- An event handler of a connection: whether it and its proxy can still be locked, and the listeners of
    its event that wait. -/
structure EventHandler where
  isAlive : Bool
  listeners : Finset Subscription

section Delivery
variable {α : Type} (deserialize : VsomeipMessage → Except Halt (Bool × α)) (message : VsomeipMessage)
  (isInitialValue : Bool)

/-- `Event::Handler::onEventMessage` -/
def onEventMessage (handler : EventHandler) : Except Halt (List (Notification α) × EventHandler) :=
  if handler.isAlive then
    (fun handled => (handled.1, { handler with listeners := handled.2 })) <$>
      handleEventMessage deserialize message isInitialValue handler.listeners
  else .ok ([], handler)

/-- What `Connection::handleProxyReceive` does with the handlers that it has copied. -/
def distribute : List EventHandler → Except Halt (List (List (Notification α) × EventHandler))
  | [] => .ok []
  | handler :: rest => do
    let first ← onEventMessage deserialize message isInitialValue handler
    let others ← distribute rest
    pure (first :: others)

def told (isInitialValue isValid : Bool) (arguments : α) (handler : EventHandler) :
    List (Notification α) × EventHandler :=
  if handler.isAlive then
    match isInitialValue, isValid with
    | true, true => ((handler.listeners.sort (· ≤ ·)).map (.notifySpecificListener · arguments),
      { handler with listeners := ∅ })
    | true, false => ((handler.listeners.sort (· ≤ ·)).map (.notifySpecificError · .invalidValue),
      { handler with listeners := ∅ })
    | false, true => ([.notifyListeners arguments], { handler with listeners := ∅ })
    | false, false => ([.notifyErrorListeners .invalidValue], handler)
  else ([], handler)

variable {deserialize message isInitialValue}

theorem onEventMessage_read {arguments : α} (hread : deserialize message = .ok (true, arguments))
    (handler : EventHandler) :
    onEventMessage deserialize message isInitialValue handler =
      .ok (told isInitialValue message.isValidCrc arguments handler) := by
  rcases handler with ⟨isAlive, listeners⟩
  unfold onEventMessage told
  rw [handleEventMessage_read hread]
  cases isAlive <;> cases isInitialValue <;> cases message.isValidCrc <;> rfl

theorem distribute_read {arguments : α} (hread : deserialize message = .ok (true, arguments))
    (handlers : List EventHandler) :
    distribute deserialize message isInitialValue handlers =
      .ok (handlers.map (told isInitialValue message.isValidCrc arguments)) := by
  induction handlers with
  | nil => rfl
  | cons handler rest ih =>
    unfold distribute
    rw [onEventMessage_read hread, ih]
    rfl

end Delivery

section Broadcast
variable {parts : (type : DataType) → type.Value → (part : DataType) → part.Value} {uninitialised : ℕ × ℕ}
  {fuel : ℕ} {isLittleEndian : Bool}

/-- The values of an event that a stub sends reach the listeners of every handler that is still there: those
    who wait get an initial value, and all get a notification. -/
theorem broadcast_arrives (types : DataTypes) (values formers : types.Values) {address : Address} {event : EventId}
    {sent : Handed} {received : VsomeipMessage}
    (hsendable : types.SendableFields isLittleEndian values 0) (hfuel : types.longestField values ≤ fuel)
    (hsent : SendingPaths.sendEvent address event isLittleEndian (types.arguments values) = .ok (some sent))
    (hshort : Short sent) (hreceived : received.payload = sent.message.payload) (isInitialValue : Bool)
    (handlers : List EventHandler) :
    distribute (readArguments isLittleEndian (types.outArgs parts uninitialised fuel) formers) received
        isInitialValue handlers =
      .ok (handlers.map (told isInitialValue received.isValidCrc values)) :=
  distribute_read (types.arguments_arrive values formers hsendable hfuel hsent hshort hreceived) handlers

end Broadcast

def byteAndBytes : DataTypes := .cons (.integer uint8 none) (.cons (.byteVector none) .nil)

def threeBytes : byteAndBytes.Values := show BitVec 8 × List Byte × Unit from (1, [2, 3], ())

/-- One handler has a listener that waits, and one has expired. -/
theorem three_bytes_arrive :
    ∃ sent : Handed, distribute (readArguments false
        (byteAndBytes.outArgs (fun _ _ => DataType.initial) (0, 0) 0) byteAndBytes.initials) sent.message true
        [⟨true, {1}⟩, ⟨false, ∅⟩] =
      .ok ([⟨true, {1}⟩, ⟨false, ∅⟩].map (told true sent.message.isValidCrc threeBytes)) := by
  have hsent := @written_shortly (SendingPaths.sendEvent ⟨0x1234, 1, 1, 0⟩ 0x8001 false
    (byteAndBytes.arguments threeBytes)) (by decide +kernel)
  rcases hsent with ⟨sent, hsent, hshort⟩
  exact ⟨sent, broadcast_arrives byteAndBytes threeBytes byteAndBytes.initials
    ⟨byte_survives 1, Or.inr (by decide), trivial⟩ (by decide) hsent hshort rfl true _⟩

def changed : VsomeipMessage := .createNotificationMessage ⟨0x1234, 1, 1, 0⟩ 0x8001

/-- One thread has taken the first listener for an initial value, and another one overtakes it with a
    notification for all, before which the second listener was added. -/
def overtakenListener : List (Action Bool) :=
  [.onListenerAdded 1, .handleEventMessage false changed true, .onListenerAdded 2,
    .handleEventMessage true changed false, .notify true, .notify false]

theorem overtaken_listener_placed :
    ∃ s, run (step fun _ => .ok (true, 7)) initial overtakenListener = some s ∧
      ∀ subscription ∈ s.added, s.places subscription = 1 := by
  have hrun : (run (step fun _ => .ok (true, 7)) initial overtakenListener).isSome := by decide +kernel
  have hmeets : Meets (step fun _ => .ok (true, 7)) Fresh initial overtakenListener := by decide +kernel
  rcases Option.isSome_iff_exists.1 hrun with ⟨s, hs⟩
  exact ⟨s, hs, subscriptions_have_one_place (.of_run _ hmeets hs)⟩

end SomeIPRuntime.EventListeners
