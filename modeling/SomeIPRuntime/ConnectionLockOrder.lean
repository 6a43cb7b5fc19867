import SomeIPRuntime.ConnectionLocks
import SomeIPRuntime.LockOrder

set_option autoImplicit false

namespace SomeIPRuntime.ConnectionLocks
open StepSystems LockPrograms
open SubscriptionStatus (ErrQueueEntry Key)

def Mutex.rank : Mutex → ℕ
  | .cleanupMutex => 0
  | .sendReceiveMutex | .availabilityMutex | .subscriptionMutex => 1
  | .eventHandlerMutex => 2

section Rules
variable {η : Type} {post : List Mutex → Prop} {held : List Mutex}

def Condition.IsLoose : Condition η → Prop
  | .nextHandler | .nextAnswer | .running | .noAnswer => True
  | _ => False

abbrev Orders (code : Code η) (post : List Mutex → Prop) (held : List Mutex) : Prop :=
  ordered Mutex.recursive Mutex.rank Condition.IsHasHandler Condition.IsLoose code post held

abbrev IsOrderly (code : Code η) : Prop :=
  Orderly Mutex.recursive Mutex.rank Condition.IsHasHandler Condition.IsLoose code

theorem callHandlers_orders (handler : Handler) (hpost : post []) : Orders (callHandlers handler : Code η) post [] :=
  ordered_while trivial ⟨fun _ => ⟨rfl, rfl⟩, rfl⟩ hpost

theorem handleProxyReceive_orderly : IsOrderly (handleProxyReceive : Code η) := by
  simp [Orderly, handleProxyReceive, Stmt.block, callHandlers_orders, Mutex.rank]

theorem handleStubReceive_orderly : IsOrderly (handleStubReceive : Code η) := by
  simp [Orderly, handleStubReceive]

theorem receive_orderly : IsOrderly (receive : Code η) := by
  simp [Orderly, receive, Stmt.block, handleProxyReceive_orderly.ordered, handleStubReceive_orderly.ordered]

theorem cancelAsyncAnswers_orders (hpost : post []) : Orders (cancelAsyncAnswers : Code η) post [] := by
  have hloop : Orders (.while_ .nextAnswer (.branch .lockedContext (.scope .sendReceiveMutex .skip)
      (.callback .messageReplyAsyncHandler)) : Code η) post [] :=
    ordered_while trivial (by simp) hpost
  simpa [cancelAsyncAnswers, Stmt.block] using hloop

theorem handleAvailabilityChange_orderly : IsOrderly (handleAvailabilityChange : Code η) := by
  simp [Orderly, handleAvailabilityChange, Stmt.block, cancelAsyncAnswers_orders, callHandlers_orders]

theorem onAvailabilityChange_orderly : IsOrderly (onAvailabilityChange : Code η) := by
  simp [Orderly, onAvailabilityChange, queueSubscriptionStatusHandler, Stmt.block, Mutex.rank,
    handleAvailabilityChange_orderly.ordered]

theorem cleanupAnswer_orders (h : AtCleanup held) : Orders (cleanupAnswer : Code η) AtCleanup held := by
  rcases h with rfl | rfl
  · simp [cleanupAnswer, AtCleanup, Stmt.block, Stmt.wait, Mutex.rank]
  · simp [cleanupAnswer, AtCleanup, Stmt.block]

theorem cleanupPass_orders (h : AtCleanup held) :
    Orders (.block [.owns .cleanupMutex (.wait .cleanupMutex) .halt,
      .branch .timeout
        (.block [.scope .sendReceiveMutex .skip, .while_ .nextAnswer cleanupAnswer])
        .skip,
      .scope .sendReceiveMutex .skip] : Code η) AtCleanup held := by
  have hend : ∀ later, AtCleanup later → Orders (.scope .sendReceiveMutex .skip : Code η) AtCleanup later := by
    intro later hlater
    rcases hlater with rfl | rfl
    · simp [AtCleanup, Mutex.rank]
    · simp [AtCleanup]
  have hanswers : ∀ later, AtCleanup later → Orders (.while_ .nextAnswer cleanupAnswer : Code η)
      (Orders (.scope .sendReceiveMutex .skip : Code η) AtCleanup) later := fun later hlater =>
    ⟨trivial, AtCleanup, hlater, fun last hlast => ⟨cleanupAnswer_orders hlast, hend last hlast⟩⟩
  rcases h with rfl | rfl
  · have hfirst : Orders (.scope .sendReceiveMutex .skip : Code η)
        (Orders (.while_ .nextAnswer cleanupAnswer : Code η)
          (Orders (.scope .sendReceiveMutex .skip : Code η) AtCleanup)) [.cleanupMutex] := by
      refine ⟨Or.inr fun other hother => ?_, List.mem_cons_self, hanswers _ (Or.inl rfl)⟩
      rw [List.mem_singleton.1 hother]
      exact Nat.zero_lt_one
    have hwaited : Orders (.wait .cleanupMutex : Code η) (Orders (.block [.branch .timeout
        (.block [.scope .sendReceiveMutex .skip, .while_ .nextAnswer cleanupAnswer]) .skip,
        .scope .sendReceiveMutex .skip] : Code η) AtCleanup) [.cleanupMutex] :=
      ⟨List.mem_cons_self, Or.inr fun _ hother => (by cases hother), fun _ => hfirst, hend _ (Or.inl rfl)⟩
    change Orders (.owns .cleanupMutex (.wait .cleanupMutex) .halt : Code η) _ [.cleanupMutex]
    exact ordered_owned List.mem_cons_self hwaited
  · rfl

theorem cleanup_orderly : IsOrderly (cleanup : Code η) := by
  refine ⟨Or.inr fun _ hother => (by cases hother), trivial, AtCleanup, Or.inl rfl, fun held hheld => ?_⟩
  refine ⟨cleanupPass_orders hheld, ?_⟩
  change Orders (.owns .cleanupMutex (.unlock .cleanupMutex) .skip : Code η) (fun held => held = []) held
  rcases hheld with rfl | rfl <;> simp

theorem statusHandler_orderly (key : Key) : IsOrderly (statusHandler key : Code η) := by
  have hloop : Orders (.while_ .nextHandler (.branch .lockedContext .skip
      (.branch .lockedHandler (.callback .eventHandler) .skip)) : Code η) (fun held => held = []) [] :=
    ordered_while trivial (by simp) rfl
  simpa [Orderly, statusHandler, Stmt.block] using fun _ => hloop

theorem processErrQueueEntry_orderly (entry : ErrQueueEntry η) : IsOrderly (processErrQueueEntry entry) := by
  simp [Orderly, processErrQueueEntry]

theorem subscriptionFunction_orderly : IsOrderly (subscriptionFunction : Code η) := by
  simp [Orderly, subscriptionFunction, Stmt.block]

theorem sendMessageWithReplyAsync_orderly : IsOrderly (sendMessageWithReplyAsync : Code η) := by
  simp [Orderly, sendMessageWithReplyAsync, Stmt.block]

theorem sendMessageWithReplyAndBlock_orderly : IsOrderly (sendMessageWithReplyAndBlock : Code η) := by
  have hloop : Orders (.while_ .noAnswer (.branch .isAvailable (.wait .sendReceiveMutex) .skip) : Code η)
      (fun held => .sendReceiveMutex ∈ held ∧ held.erase .sendReceiveMutex = []) [.sendReceiveMutex] :=
    ordered_while trivial (by simp [Stmt.wait, Stmt.block]) (by simp)
  simpa [Orderly, sendMessageWithReplyAndBlock] using fun _ _ => hloop

theorem proxyPushMessageToMainLoop_orderly : IsOrderly (proxyPushMessageToMainLoop : Code η) := by
  simp [Orderly, proxyPushMessageToMainLoop, Stmt.block, receive_orderly.ordered]

theorem body_orderly (function : Function η) : IsOrderly (body function) := by
  cases function with
  | receive => exact receive_orderly
  | onAvailabilityChange => exact onAvailabilityChange_orderly
  | statusHandler key => exact statusHandler_orderly key
  | cleanup => exact cleanup_orderly
  | handleProxyReceive => exact handleProxyReceive_orderly
  | handleStubReceive => exact handleStubReceive_orderly
  | handleAvailabilityChange => exact handleAvailabilityChange_orderly
  | processErrQueueEntry entry => exact processErrQueueEntry_orderly entry
  | subscriptionFunction => exact subscriptionFunction_orderly
  | sendMessageWithReplyAsync => exact sendMessageWithReplyAsync_orderly
  | sendMessageWithReplyAndBlock => exact sendMessageWithReplyAndBlock_orderly
  | proxyPushMessageToMainLoop => exact proxyPushMessageToMainLoop_orderly
  | subscriptionHandler => simp [Orderly, body]
  | addEventHandler _ _ _ => simp [Orderly, body, addEventHandler]
  | removeEventHandler _ _ _ => simp [Orderly, body, removeEventHandler]
  | subscribe _ _ _ _ => simp [Orderly, body, subscribe]
  | isAvailable | registerAvailabilityHandler | unregisterAvailabilityHandler => simp [Orderly, body]
  | registerSubscriptionHandler | unregisterSubscriptionHandler => simp [Orderly, body]
  | doDisconnect => simp [Orderly, body, doDisconnect]

end Rules

section Results
variable {η : Type} [DecidableEq η] {s : State Mutex Handler (Condition η) (Change η) (Tables η)}

theorem loose_open (condition : Condition η) (data : Tables η) (h : condition.IsLoose) :
    meaning.test condition data ≠ some true := by
  cases condition with
  | nextHandler | nextAnswer | running | noAnswer => exact nofun
  | _ => exact h.elim

theorem connection_orderable (h : Reachable connectionStep NoErrorCall initial s) :
    Orderable meaning Mutex.rank Condition.IsHasHandler Condition.IsLoose s :=
  reachable_orderable body_orderly h

/-- `processErrQueueEntry` comes to a handler that is there and still registered. -/
def ErrorCall (s : State Mutex Handler (Condition η) (Change η) (Tables η)) : Prop :=
  ∃ i choice, ¬ NoErrorCall s (.next i choice)

/-- Wherever the functions of a connection have come to, no two threads hold one mutex, and if mutexes
    are held, a thread that holds one can go on. If the threads just go on, all mutexes come free, or
    `processErrQueueEntry` comes to a handler that it calls. -/
theorem connection_does_not_deadlock (h : Reachable connectionStep NoErrorCall initial s) :
    Exclusive s ∧
      ((∃ thread ∈ s.threads, thread.held ≠ []) → ∃ i thread choice, s.threads[i]? = some thread ∧
        thread.held ≠ [] ∧ (connectionStep s (.next i choice)).isSome) ∧
      ∃ actions t, OnTheirOwn actions ∧ run connectionStep s actions = some t ∧
        ((∀ thread ∈ t.threads, thread.held = []) ∨ ErrorCall t) := by
  have horderable := connection_orderable h
  refine ⟨horderable.exclusive, fun hholds => ?_, mutexes_come_free body_orderly loose_open horderable⟩
  rcases holder_goes_on horderable loose_open hholds body with ⟨i, thread, choice, t, hget, hne, hstep, -⟩
  exact ⟨i, thread, choice, hget, hne, Option.isSome_iff_exists.2 ⟨t, hstep⟩⟩

end Results

/-- One thread distributes an event and holds both mutexes, and another one waits for a subscription. -/
def eventMeetsSubscription : List (Action (Function ℕ) (Change ℕ)) :=
  [.start, .start, .enter 0 .handleProxyReceive, .enter 1 (.subscribe (1, 1, 0x8001) 1 1 0)] ++
    nexts 6 ++ [.next 1 true]

theorem event_meets_subscription : ∃ s, run connectionStep initial eventMeetsSubscription = some s ∧
    ∃ actions t, OnTheirOwn actions ∧ run connectionStep s actions = some t ∧
      ((∀ thread ∈ t.threads, thread.held = []) ∨ ErrorCall t) := by
  have hrun : (run connectionStep initial eventMeetsSubscription).isSome := by decide +kernel
  have hmeets : Meets connectionStep NoErrorCall initial eventMeetsSubscription := by decide +kernel
  rcases Option.isSome_iff_exists.1 hrun with ⟨s, hs⟩
  exact ⟨s, hs, (connection_does_not_deadlock (.of_run _ hmeets hs)).2.2⟩

end SomeIPRuntime.ConnectionLocks
