import SomeIPRuntime.LockPrograms
import SomeIPRuntime.SubscriptionStatus

set_option autoImplicit false

/-!
# Handlers and the mutexes of a connection

The functions of a connection that lock its mutexes or call handlers. What decides over a branch is
followed for the entries of failed subscriptions; the other conditions are left open, and the main loop
may process any entry at any time. A handler throws only where that is caught.
-/
namespace SomeIPRuntime.ConnectionLocks
open StepSystems LockPrograms
open EventSubscriptions (Event Tag)
open SubscriptionStatus (ErrQueueEntry Key)

inductive Mutex
  | eventHandlerMutex
  | sendReceiveMutex
  | availabilityMutex
  | cleanupMutex
  | subscriptionMutex
  deriving DecidableEq, Repr

def Mutex.recursive : Mutex → Bool
  | .sendReceiveMutex | .subscriptionMutex => true
  | .eventHandlerMutex | .availabilityMutex | .cleanupMutex => false

inductive Handler
  | eventHandler
  | messageReplyAsyncHandler
  | availabilityHandler
  | subscriptionHandler
  | stubMessageHandler
  deriving DecidableEq, Repr

inductive Condition (η : Type)
  | proxyReceive
  | queued
  | notification
  | nextHandler
  | lockedHandler
  | foundSession
  | foundAsyncHandler
  | foundTimeoutHandler
  | stubMessageHandler
  | availabilityLost
  | isAvailable
  | lockedContext
  | nextAnswer
  | handlerThrows
  | running
  | timeout
  | isConnected
  | sameSession
  | emplaced
  | noAnswer
  | foundSubscription
  | cleanupThread
  | foundWrapper (key : Key)
  | lockedEntry (eventHandler : η)
  | hasHandler (entry : ErrQueueEntry η)
  deriving DecidableEq

/-- What the functions do to the tables that are followed, and that a handler expires. -/
inductive Change (η : Type)
  | addEventHandler (event : Event) (eventGroup : EventgroupId) (eventHandler : η)
  | removeEventHandler (event : Event) (eventGroup : EventgroupId) (eventHandler : η)
  | insertSubscriptionStatusListener (event : Event) (eventGroup : EventgroupId) (eventHandler : η)
      (tag : Tag)
  | expire (eventHandler : η)
  deriving DecidableEq

structure Tables (η : Type) where
  connection : EventSubscriptions.State η
  expired : Finset η

section Meaning
variable {η : Type} [DecidableEq η]

def Tables.lock (tables : Tables η) (eventHandler : η) : Option η :=
  if eventHandler ∈ tables.expired then none else some eventHandler

def apply : Change η → Tables η → Tables η
  | .addEventHandler event eventGroup eventHandler, tables =>
    { tables with
      connection := EventSubscriptions.addEventHandler event eventGroup (tables.lock eventHandler)
        tables.connection }
  | .removeEventHandler event eventGroup eventHandler, tables =>
    { tables with
      connection :=
        EventSubscriptions.removeEventHandler event eventGroup eventHandler tables.connection }
  | .insertSubscriptionStatusListener event eventGroup eventHandler tag, tables =>
    { tables with
      connection := EventSubscriptions.insertSubscriptionStatusListener event eventGroup
        (tables.lock eventHandler) tag tables.connection }
  | .expire eventHandler, tables => { tables with expired := insert eventHandler tables.expired }

def test : Condition η → Tables η → Option Bool
  | .foundWrapper key, tables => some (tables.connection.subscriptionStates.lookup key).isSome
  | .lockedEntry eventHandler, tables => some (tables.lock eventHandler).isSome
  | .hasHandler entry, tables =>
    some (SubscriptionStatus.registered tables.connection entry.key entry.pair)
  | _, _ => none

def meaning : Meaning Mutex (Condition η) (Change η) (Tables η) := ⟨Mutex.recursive, test, apply⟩

end Meaning

section Functions
variable {η : Type}

abbrev Code (η : Type) := Stmt Mutex Handler (Condition η) (Change η)

def callHandlers (handler : Handler) : Code η :=
  .while_ .nextHandler (.branch .lockedHandler (.callback handler) .skip)

def handleProxyReceive : Code η :=
  .block [.lock .sendReceiveMutex,
    .branch .notification
      (.block [.scope .eventHandlerMutex .skip, .unlock .sendReceiveMutex, callHandlers .eventHandler])
      (.branch .foundSession
        (.unlock .sendReceiveMutex)
        (.branch .foundAsyncHandler
          (.block [.unlock .sendReceiveMutex, .callback .messageReplyAsyncHandler])
          (.branch .foundTimeoutHandler
            (.block [.unlock .sendReceiveMutex, .callback .messageReplyAsyncHandler])
            (.unlock .sendReceiveMutex))))]

def handleStubReceive : Code η := .branch .stubMessageHandler (.callback .stubMessageHandler) .skip

/-- `queued` is the condition under which the message is left to the main loop. -/
def receive : Code η :=
  .block [.branch .proxyReceive (.scope .sendReceiveMutex .skip) .skip,
    .branch .queued .skip (.branch .proxyReceive handleProxyReceive handleStubReceive)]

def queueSubscriptionStatusHandler : Code η := .scope .eventHandlerMutex .skip

def cancelAsyncAnswers : Code η :=
  .block [.scope .sendReceiveMutex .skip,
    .while_ .nextAnswer (.branch .lockedContext
      (.scope .sendReceiveMutex .skip)
      (.callback .messageReplyAsyncHandler))]

def handleAvailabilityChange : Code η :=
  .block [.branch .isAvailable .skip (.block [.scope .sendReceiveMutex .skip, cancelAsyncAnswers]),
    .scope .availabilityMutex .skip,
    callHandlers .availabilityHandler]

def onAvailabilityChange : Code η :=
  .block [.scope .availabilityMutex (.branch .availabilityLost queueSubscriptionStatusHandler .skip),
    .branch .lockedContext .skip handleAvailabilityChange]

/-- What `cleanup` does with an answer. A lock that is not owned throws when it is unlocked, which is
    caught around the handler only; so is what the handler throws. -/
def cleanupAnswer : Code η :=
  .branch .lockedContext
    (.block [.scope .sendReceiveMutex .skip, .owns .cleanupMutex (.wait .cleanupMutex) .halt])
    (.owns .cleanupMutex
      (.block [.unlock .cleanupMutex, .callback .messageReplyAsyncHandler,
        .branch .handlerThrows .skip (.lock .cleanupMutex)])
      .skip)

def cleanup : Code η :=
  .block [.lock .cleanupMutex,
    .while_ .running (.block [.owns .cleanupMutex (.wait .cleanupMutex) .halt,
      .branch .timeout
        (.block [.scope .sendReceiveMutex .skip, .while_ .nextAnswer cleanupAnswer])
        .skip,
      .scope .sendReceiveMutex .skip]),
    .owns .cleanupMutex (.unlock .cleanupMutex) .skip]

/-- The status handler that `addSubscriptionStatusListener` registers. -/
def statusHandler (key : Key) : Code η :=
  .block [.lock .eventHandlerMutex,
    .branch (.foundWrapper key)
      (.block [.unlock .eventHandlerMutex,
        .while_ .nextHandler (.branch .lockedContext .skip
          (.branch .lockedHandler (.callback .eventHandler) .skip))])
      (.unlock .eventHandlerMutex)]

def processErrQueueEntry (entry : ErrQueueEntry η) : Code η :=
  .scope .eventHandlerMutex (.branch (.foundWrapper entry.key)
    (.branch (.lockedEntry entry.eventHandler)
      (.branch (.hasHandler entry) (.callback .eventHandler) .skip)
      .skip)
    .skip)

/-- The function that `registerSubscriptionHandler` has pushed to the main loop. -/
def subscriptionFunction : Code η :=
  .block [.scope .subscriptionMutex .skip,
    .branch .foundSubscription (.callback .subscriptionHandler) .skip]

def addEventHandler (event : Event) (eventGroup : EventgroupId) (eventHandler : η) : Code η :=
  .scope .eventHandlerMutex (.act (.addEventHandler event eventGroup eventHandler))

def removeEventHandler (event : Event) (eventGroup : EventgroupId) (eventHandler : η) : Code η :=
  .scope .eventHandlerMutex (.act (.removeEventHandler event eventGroup eventHandler))

def subscribe (event : Event) (eventGroup : EventgroupId) (eventHandler : η) (tag : Tag) : Code η :=
  .scope .eventHandlerMutex
    (.act (.insertSubscriptionStatusListener event eventGroup eventHandler tag))

def sendMessageWithReplyAsync : Code η :=
  .branch .isConnected
    (.block [.lock .sendReceiveMutex,
      .branch .sameSession
        (.unlock .sendReceiveMutex)
        (.block [.unlock .sendReceiveMutex, .scope .cleanupMutex .skip])])
    .skip

def sendMessageWithReplyAndBlock : Code η :=
  .branch .isConnected
    (.scope .sendReceiveMutex
      (.branch .emplaced
        (.while_ .noAnswer (.branch .isAvailable (.wait .sendReceiveMutex) .skip))
        .skip))
    .skip

def proxyPushMessageToMainLoop : Code η := .block [.scope .sendReceiveMutex .skip, receive]

def doDisconnect : Code η := .branch .cleanupThread (.scope .cleanupMutex .skip) .skip

/-- What unknown code calls: the application, vsomeip, the main loop, and the threads of the connection.
    vsomeip calls from threads of its own, not from inside a call that it is given. -/
inductive Function (η : Type)
  | receive
  | onAvailabilityChange
  | statusHandler (key : Key)
  /-- a subscription handler that vsomeip was given itself -/
  | subscriptionHandler
  | cleanup
  | handleProxyReceive
  | handleStubReceive
  | handleAvailabilityChange
  | processErrQueueEntry (entry : ErrQueueEntry η)
  | subscriptionFunction
  | addEventHandler (event : Event) (eventGroup : EventgroupId) (eventHandler : η)
  | removeEventHandler (event : Event) (eventGroup : EventgroupId) (eventHandler : η)
  | subscribe (event : Event) (eventGroup : EventgroupId) (eventHandler : η) (tag : Tag)
  | sendMessageWithReplyAsync
  | sendMessageWithReplyAndBlock
  | proxyPushMessageToMainLoop
  | isAvailable
  | registerAvailabilityHandler
  | unregisterAvailabilityHandler
  | registerSubscriptionHandler
  | unregisterSubscriptionHandler
  | doDisconnect
  deriving DecidableEq

def body : Function η → Code η
  | .receive => receive
  | .onAvailabilityChange => onAvailabilityChange
  | .statusHandler key => statusHandler key
  | .subscriptionHandler => .callback .subscriptionHandler
  | .cleanup => cleanup
  | .handleProxyReceive => handleProxyReceive
  | .handleStubReceive => handleStubReceive
  | .handleAvailabilityChange => handleAvailabilityChange
  | .processErrQueueEntry entry => processErrQueueEntry entry
  | .subscriptionFunction => subscriptionFunction
  | .addEventHandler event eventGroup eventHandler => addEventHandler event eventGroup eventHandler
  | .removeEventHandler event eventGroup eventHandler =>
    removeEventHandler event eventGroup eventHandler
  | .subscribe event eventGroup eventHandler tag => subscribe event eventGroup eventHandler tag
  | .sendMessageWithReplyAsync => sendMessageWithReplyAsync
  | .sendMessageWithReplyAndBlock => sendMessageWithReplyAndBlock
  | .proxyPushMessageToMainLoop => proxyPushMessageToMainLoop
  | .isAvailable | .registerAvailabilityHandler | .unregisterAvailabilityHandler =>
    .scope .availabilityMutex .skip
  | .registerSubscriptionHandler | .unregisterSubscriptionHandler => .scope .subscriptionMutex .skip
  | .doDisconnect => doDisconnect

end Functions

section Rules
variable {η : Type} {post : List Mutex → Prop} {held : List Mutex}

/-- The condition under which `processErrQueueEntry` calls `onError`. -/
def Condition.IsHasHandler : Condition η → Prop
  | .hasHandler _ => True
  | _ => False

instance : (condition : Condition η) → Decidable condition.IsHasHandler
  | .hasHandler _ => .isTrue trivial
  | .proxyReceive | .queued | .notification | .nextHandler | .lockedHandler | .foundSession
  | .foundAsyncHandler | .foundTimeoutHandler | .stubMessageHandler | .availabilityLost | .isAvailable
  | .lockedContext | .nextAnswer | .handlerThrows | .running | .timeout | .isConnected | .sameSession
  | .emplaced | .noAnswer | .foundSubscription | .cleanupThread | .foundWrapper _ | .lockedEntry _ =>
    .isFalse id

abbrev Keeps (code : Code η) (post : List Mutex → Prop) (held : List Mutex) : Prop :=
  pre Mutex.recursive Condition.IsHasHandler code post held

abbrev IsClean (code : Code η) : Prop := Clean Mutex.recursive Condition.IsHasHandler code

@[simp] theorem isHasHandler_hasHandler (entry : ErrQueueEntry η) :
    (Condition.hasHandler entry).IsHasHandler := trivial

@[simp] theorem callHandlers_keeps (handler : Handler) :
    Keeps (callHandlers handler : Code η) post [] ↔ post [] := by
  constructor
  · rintro ⟨inv, hinv, h⟩
    exact (h [] hinv).2
  · exact pre_while ⟨fun _ => ⟨rfl, rfl⟩, rfl⟩

theorem handleProxyReceive_clean : IsClean (handleProxyReceive : Code η) := by
  simp [Clean, handleProxyReceive, Stmt.block]

theorem handleStubReceive_clean : IsClean (handleStubReceive : Code η) := by
  simp [Clean, handleStubReceive]

theorem receive_clean : IsClean (receive : Code η) := by
  simp [Clean, receive, Stmt.block, handleProxyReceive_clean.pre, handleStubReceive_clean.pre]

theorem cancelAsyncAnswers_keeps (hpost : post []) : Keeps (cancelAsyncAnswers : Code η) post [] := by
  have hloop : Keeps (.while_ .nextAnswer (.branch .lockedContext (.scope .sendReceiveMutex .skip)
      (.callback .messageReplyAsyncHandler)) : Code η) post [] :=
    pre_while (by simp) hpost
  simpa [cancelAsyncAnswers, Stmt.block] using hloop

theorem handleAvailabilityChange_clean : IsClean (handleAvailabilityChange : Code η) := by
  simp [Clean, handleAvailabilityChange, Stmt.block, cancelAsyncAnswers_keeps]

theorem onAvailabilityChange_clean : IsClean (onAvailabilityChange : Code η) := by
  simp [Clean, onAvailabilityChange, queueSubscriptionStatusHandler, Stmt.block,
    handleAvailabilityChange_clean.pre]

def AtCleanup (held : List Mutex) : Prop := held = [.cleanupMutex] ∨ held = []

theorem cleanupAnswer_keeps (h : AtCleanup held) : Keeps (cleanupAnswer : Code η) AtCleanup held := by
  rcases h with rfl | rfl
  · simp [cleanupAnswer, AtCleanup, Stmt.block, Stmt.wait, Mutex.recursive]
  · simp [cleanupAnswer, AtCleanup, Stmt.block, Stmt.wait, Mutex.recursive]

theorem cleanupPass_keeps (h : AtCleanup held) :
    Keeps (.block [.owns .cleanupMutex (.wait .cleanupMutex) .halt,
      .branch .timeout
        (.block [.scope .sendReceiveMutex .skip, .while_ .nextAnswer cleanupAnswer])
        .skip,
      .scope .sendReceiveMutex .skip] : Code η) AtCleanup held := by
  have hend : ∀ later, AtCleanup later → Keeps (.scope .sendReceiveMutex .skip : Code η) AtCleanup later :=
    fun later hlater => ⟨fun _ => rfl, hlater⟩
  have hanswers : ∀ later, AtCleanup later → Keeps (.while_ .nextAnswer cleanupAnswer : Code η)
      (Keeps (.scope .sendReceiveMutex .skip : Code η) AtCleanup) later := fun later hlater =>
    ⟨AtCleanup, hlater, fun last hlast => ⟨cleanupAnswer_keeps hlast, hend last hlast⟩⟩
  rcases h with rfl | rfl
  · refine ⟨by simp, fun _ => ⟨fun _ => rfl, ?_⟩, ?_⟩
    · exact hanswers _ (Or.inl rfl)
    · exact hend _ (Or.inl rfl)
  · trivial

theorem cleanup_clean : IsClean (cleanup : Code η) := by
  refine ⟨fun h => absurd h List.not_mem_nil, AtCleanup, Or.inl rfl, fun held hheld => ?_⟩
  refine ⟨cleanupPass_keeps hheld, ?_⟩
  change Keeps (.owns .cleanupMutex (.unlock .cleanupMutex) .skip : Code η) (fun held => held = []) held
  rcases hheld with rfl | rfl <;> simp

theorem statusHandler_clean (key : Key) : IsClean (statusHandler key : Code η) := by
  have hloop : Keeps (.while_ .nextHandler (.branch .lockedContext .skip
      (.branch .lockedHandler (.callback .eventHandler) .skip)) : Code η) (fun held => held = []) [] :=
    pre_while (by simp) rfl
  simpa [Clean, statusHandler, Stmt.block] using fun _ => hloop

theorem processErrQueueEntry_clean (entry : ErrQueueEntry η) : IsClean (processErrQueueEntry entry) := by
  simp [Clean, processErrQueueEntry]

theorem subscriptionFunction_clean : IsClean (subscriptionFunction : Code η) := by
  simp [Clean, subscriptionFunction, Stmt.block]

theorem sendMessageWithReplyAsync_clean : IsClean (sendMessageWithReplyAsync : Code η) := by
  simp [Clean, sendMessageWithReplyAsync, Stmt.block]

theorem sendMessageWithReplyAndBlock_clean : IsClean (sendMessageWithReplyAndBlock : Code η) := by
  have hloop : Keeps (.while_ .noAnswer (.branch .isAvailable (.wait .sendReceiveMutex) .skip) : Code η)
      (fun held => held.erase .sendReceiveMutex = []) [.sendReceiveMutex] :=
    pre_while (by simp [Stmt.wait, Stmt.block]) (by simp)
  simpa [Clean, sendMessageWithReplyAndBlock] using fun _ _ => hloop

theorem proxyPushMessageToMainLoop_clean : IsClean (proxyPushMessageToMainLoop : Code η) := by
  simp [Clean, proxyPushMessageToMainLoop, Stmt.block, receive_clean.pre]

theorem body_clean (function : Function η) : IsClean (body function) := by
  cases function with
  | receive => exact receive_clean
  | onAvailabilityChange => exact onAvailabilityChange_clean
  | statusHandler key => exact statusHandler_clean key
  | cleanup => exact cleanup_clean
  | handleProxyReceive => exact handleProxyReceive_clean
  | handleStubReceive => exact handleStubReceive_clean
  | handleAvailabilityChange => exact handleAvailabilityChange_clean
  | processErrQueueEntry entry => exact processErrQueueEntry_clean entry
  | subscriptionFunction => exact subscriptionFunction_clean
  | sendMessageWithReplyAsync => exact sendMessageWithReplyAsync_clean
  | sendMessageWithReplyAndBlock => exact sendMessageWithReplyAndBlock_clean
  | proxyPushMessageToMainLoop => exact proxyPushMessageToMainLoop_clean
  | subscriptionHandler => simp [Clean, body]
  | addEventHandler _ _ _ => simp [Clean, body, addEventHandler]
  | removeEventHandler _ _ _ => simp [Clean, body, removeEventHandler]
  | subscribe _ _ _ _ => simp [Clean, body, subscribe]
  | isAvailable | registerAvailabilityHandler | unregisterAvailabilityHandler => simp [Clean, body]
  | registerSubscriptionHandler | unregisterSubscriptionHandler => simp [Clean, body]
  | doDisconnect => simp [Clean, body, doDisconnect]

end Rules

section Results
variable {η : Type} [DecidableEq η]

def connectionStep : State Mutex Handler (Condition η) (Change η) (Tables η) →
    Action (Function η) (Change η) →
      Option (State Mutex Handler (Condition η) (Change η) (Tables η)) :=
  step meaning body

/-- No entry of a failed subscription is processed whose handler is there and still registered. -/
def NoErrorCall (s : State Mutex Handler (Condition η) (Change η) (Tables η)) :
    Action (Function η) (Change η) → Prop :=
  Avoids meaning Condition.IsHasHandler s

instance (s : State Mutex Handler (Condition η) (Change η) (Tables η)) (a : Action (Function η) (Change η)) :
    Decidable (NoErrorCall s a) :=
  inferInstanceAs (Decidable (Avoids meaning Condition.IsHasHandler s a))

def initial : State Mutex Handler (Condition η) (Change η) (Tables η) :=
  ⟨[], ⟨EventSubscriptions.initial, ∅⟩⟩

/-- In every run in which `processErrQueueEntry` calls no handler, handlers run without the mutexes of
    the connection, and no thread locks a mutex again that is not recursive. -/
theorem handlers_called_unlocked {s : State Mutex Handler (Condition η) (Change η) (Tables η)}
    (h : Reachable connectionStep NoErrorCall initial s) : ∀ thread ∈ s.threads, thread.Clear meaning :=
  clear_of_clean body_clean h

end Results

def nexts (n : ℕ) : List (Action (Function ℕ) (Change ℕ)) := List.replicate n (.next 0 true)

/-- The main loop hands an event to a handler, which subscribes from inside, and then processes an entry
    of a subscription that is not registered any more. -/
def eventAndStaleEntry : List (Action (Function ℕ) (Change ℕ)) :=
  .flatten [
    [.start, .enter 0 (.addEventHandler (1, 1, 0x8001) 1 1)], nexts 5,
    [.enter 0 .receive], nexts 7, [.next 0 false], nexts 15,
    [.enter 0 (.subscribe (1, 1, 0x8001) 1 1 0)], nexts 5, [.leave 0, .next 0 false],
    [.enter 0 (.processErrQueueEntry ⟨0, 7, ((1, 1, 0x8001), 1), 1, 5⟩)], nexts 5,
    [.next 0 false], nexts 2]

theorem event_and_stale_entry_unlocked :
    ∃ s, run connectionStep initial eventAndStaleEntry = some s ∧
      ∀ thread ∈ s.threads, thread.Clear meaning := by
  have hrun : (run connectionStep initial eventAndStaleEntry).isSome := by decide +kernel
  have hmeets : Meets connectionStep NoErrorCall initial eventAndStaleEntry := by decide +kernel
  rcases Option.isSome_iff_exists.1 hrun with ⟨s, hs⟩
  exact ⟨s, hs, handlers_called_unlocked (.of_run _ hmeets hs)⟩

def subscriptionFails : List (Action (Function ℕ) (Change ℕ)) :=
  .flatten [
    [.start, .enter 0 (.addEventHandler (1, 1, 0x8001) 1 1)], nexts 5,
    [.enter 0 (.subscribe (1, 1, 0x8001) 1 1 0)], nexts 5,
    [.enter 0 (.processErrQueueEntry ⟨0, 7, ((1, 1, 0x8001), 1), 1, 0⟩)], nexts 7]

/-- `onError` is called under a mutex, and who subscribes from inside it never gets that mutex. -/
theorem error_called_locked :
    (¬ ∀ s : State Mutex Handler (Condition ℕ) (Change ℕ) (Tables ℕ),
      Reachable connectionStep Free initial s → ∀ thread ∈ s.threads, thread.Clear meaning) ∧
    ∃ s ∈ run connectionStep initial
        (subscriptionFails ++ [.enter 0 (.subscribe (1, 1, 0x8001) 2 1 1), .next 0 true]),
      ∀ choice, (connectionStep s (.next 0 choice)).isNone := by
  constructor
  · intro h
    have hlocked : ∃ s ∈ run connectionStep initial subscriptionFails,
        ∃ thread ∈ s.threads, ¬ thread.Clear meaning := by decide +kernel
    rcases hlocked with ⟨s, hs, thread, hthread, hclear⟩
    exact hclear (h s (reachable_of_run hs) thread hthread)
  · decide +kernel

end SomeIPRuntime.ConnectionLocks
