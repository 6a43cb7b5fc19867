import SomeIPRuntime.HandlerOwnership
import SomeIPRuntime.StepSystems

set_option autoImplicit false

namespace SomeIPRuntime.AsyncAnswers
open StepSystems

variable {s t : State}

def OwnMessage (s : State) (invocation : Invocation) : Prop :=
  ∃ stored, s.stored invocation.handler = some stored ∧
    (invocation.message.session ≠ 0 ∧ invocation.message.session = stored.message.session ∨
      invocation.message.call = some invocation.handler ∧ invocation.message.message.isErrorType)

structure Matched (s : State) : Prop where
  once : (s.invoked.map Invocation.handler).Nodup
  own : ∀ invocation ∈ s.invoked, OwnMessage s invocation
  full : ∀ expiry ∈ s.expired, ∃ stored, s.stored expiry.handler = some stored ∧
    stored.time + milliseconds stored.timeout < expiry.now ∧ expiry.now ≤ s.now
  returned : ∀ returned ∈ s.returned, ∀ message ∈ returned.answer, message.session = returned.session
  blocked : ∀ sessionId, sessionId ∈ s.sendAndBlockAnswers ↔
    ∃ blocked ∈ s.blocked, fake blocked.session = sessionId

def pending (s : State) : List (Sigma fun _ : FakeSessionId => Entry) :=
  s.asyncAnswers.entries ++ (s.asyncTimeouts.entries ++
    s.workers.flatMap fun worker => worker.asyncAnswersToProcess.entries)

/-- vsomeip gives a session that it has not given before. -/
def Fresh (s : State) (session : Option SessionId) : Prop :=
  ∃ given ∈ session, given ≠ 0 ∧ given ∉ s.sessions

/-- vsomeip gives all requests different sessions, and there is room for another call without one. -/
def Distinct (room : State → Prop) (s : State) : Action → Prop
  | .callMethodAsync _ isAvailable _ isConnected session =>
    isAvailable = true → isConnected = true → Fresh s session
  | .availabilityCallback i isAvailable _ isConnected session =>
    ∀ waiting ∈ s.timeouts[i]?,
      if isAvailable then isConnected = true → Fresh s session
      else if waiting.message.session = 0 then room s
      else waiting.message.session ∉ s.sessions
  | .startBlocking _ _ isConnected session _ => isConnected = true → Fresh s session
  | _ => True

/-- No call and no error response on its way has the next session that is made up. -/
def Unused (s : State) : Prop :=
  (∀ x ∈ pending s, x.1 ≠ nextKey s) ∧ ∀ y ∈ s.errorResponses.entries, y.2 ≠ nextKey s

def synthetic (s : State) : ℕ := (pending s).countP fun x => x.2.message.session = 0

def Faked (sessionId : FakeSessionId) : Prop := ∀ session, fake session ≠ sessionId

theorem fake_injective {a b : SessionId} (h : fake a = fake b) : a = b := by
  have htoNat := congrArg BitVec.toNat h
  have ha := a.isLt
  have hb := b.isLt
  unfold fake at htoNat
  rw [BitVec.toNat_setWidth, BitVec.toNat_setWidth, Nat.mod_eq_of_lt (by omega),
    Nat.mod_eq_of_lt (by omega)] at htoNat
  exact BitVec.eq_of_toNat_eq htoNat

theorem nextFakeSessionId_ne_zero (fakeSessionId : BitVec 16) : nextFakeSessionId fakeSessionId ≠ 0 := by
  unfold nextFakeSessionId
  split
  next h =>
    rw [h]
    decide
  next h => exact h

theorem nextKey_faked (s : State) : Faked (nextKey s) := by
  intro session heq
  have htoNat := congrArg BitVec.toNat heq
  have hne : (nextFakeSessionId s.fakeSessionId).toNat ≠ 0 := fun hzero =>
    nextFakeSessionId_ne_zero s.fakeSessionId (BitVec.eq_of_toNat_eq hzero)
  have hlt := (nextFakeSessionId s.fakeSessionId).isLt
  have hsession := session.isLt
  unfold fake nextKey at htoNat
  rw [BitVec.toNat_shiftLeft, BitVec.toNat_setWidth, BitVec.toNat_setWidth, Nat.shiftLeft_eq] at htoNat
  omega

def Keyed (key : FakeSessionId) (entry : Entry) : Prop :=
  entry.message.call = some entry.handler ∧
    (entry.message.session = 0 ∧ Faked key ∨
      entry.message.session ≠ 0 ∧ fake entry.message.session = key)

def Timed (s : State) (entry : Entry) : Prop :=
  ∃ stored, s.stored entry.handler = some stored ∧ stored.message = entry.message ∧
    stored.time + milliseconds stored.timeout =
      entry.timeoutTime + milliseconds entry.warnThreshold

def Elapsed (s : State) (expiry : Expiry) : Prop :=
  ∃ stored, s.stored expiry.handler = some stored ∧
    stored.time + milliseconds stored.timeout < expiry.now

structure Sound (s : State) : Prop where
  keyed : ∀ x ∈ pending s, Keyed x.1 x.2
  timed : ∀ x ∈ pending s, Timed s x.2
  errors : ∀ y ∈ s.errorResponses.entries, y.1.message.isErrorType ∧ Faked y.2 ∧
    ∀ x ∈ pending s, x.1 = y.2 → y.1.call = some x.2.handler
  own : ∀ invocation ∈ s.invoked, OwnMessage s invocation
  full : ∀ expiry ∈ s.expired, Elapsed s expiry ∧ expiry.now ≤ s.now
  unstored : ∀ handler, (s.stored handler).isSome → handler < s.handlers ∧ handler ∉ waiting s
  waits : ∀ waiting ∈ s.timeouts, waiting.message.call = some waiting.handler

structure Blocking (s : State) : Prop where
  given : ∀ blocked ∈ s.blocked, blocked.session ≠ 0 ∧ blocked.session ∈ s.sessions
  once : (s.blocked.map Blocked.session).Nodup
  blocked : ∀ sessionId, sessionId ∈ s.sendAndBlockAnswers ↔
    ∃ blocked ∈ s.blocked, fake blocked.session = sessionId
  answers : ∀ y ∈ s.sendAndBlockAnswers.entries, ∀ message ∈ y.2, fake message.session = y.1
  returned : ∀ returned ∈ s.returned, ∀ message ∈ returned.answer, message.session = returned.session

theorem mem_pending {x : Sigma fun _ : FakeSessionId => Entry} : x ∈ pending s ↔
    x ∈ s.asyncAnswers.entries ∨ x ∈ s.asyncTimeouts.entries ∨
      ∃ worker ∈ s.workers, x ∈ worker.asyncAnswersToProcess.entries := by
  unfold pending
  rw [List.mem_append, List.mem_append, List.mem_flatMap]

/-- One state comes after another, with nothing stored in between. -/
structure Follows (s t : State) : Prop where
  pending : ∀ x ∈ pending t, ∃ old ∈ pending s, old.1 = x.1 ∧ old.2.message = x.2.message ∧
    old.2.handler = x.2.handler ∧
    old.2.timeoutTime + milliseconds old.2.warnThreshold =
      x.2.timeoutTime + milliseconds x.2.warnThreshold
  errors : ∀ y ∈ t.errorResponses.entries, y ∈ s.errorResponses.entries
  stored : t.stored = s.stored
  invoked : ∀ invocation ∈ t.invoked, invocation ∈ s.invoked ∨ OwnMessage s invocation
  expired : ∀ expiry ∈ t.expired, expiry ∈ s.expired ∨ Elapsed s expiry ∧ expiry.now ≤ s.now
  now : s.now ≤ t.now
  handlers : t.handlers = s.handlers
  timeouts : ∀ waiting ∈ t.timeouts, waiting ∈ s.timeouts

theorem waiting_subset (h : ∀ waiting ∈ t.timeouts, waiting ∈ s.timeouts) {handler : ℕ}
    (hmem : handler ∈ waiting t) : handler ∈ waiting s := by
  obtain ⟨waiting, hwaiting, heq⟩ := List.mem_map.1 hmem
  exact List.mem_map.2 ⟨waiting, h waiting hwaiting, heq⟩

theorem Sound.follows (h : Sound s) (hfollows : Follows s t) : Sound t where
  keyed x hx := by
    obtain ⟨old, hold, hkey, hmessage, hhandler, _⟩ := hfollows.pending x hx
    have hkeyed := h.keyed old hold
    unfold Keyed at hkeyed ⊢
    rwa [hkey, hmessage, hhandler] at hkeyed
  timed x hx := by
    obtain ⟨old, hold, _, hmessage, hhandler, htime⟩ := hfollows.pending x hx
    have htimed := h.timed old hold
    unfold Timed at htimed ⊢
    rwa [hmessage, hhandler, htime, ← hfollows.stored] at htimed
  errors y hy := by
    obtain ⟨herror, hfaked, hcall⟩ := h.errors y (hfollows.errors y hy)
    refine ⟨herror, hfaked, fun x hx heq => ?_⟩
    obtain ⟨old, hold, hkey, _, hhandler, _⟩ := hfollows.pending x hx
    rw [← hhandler]
    exact hcall old hold (hkey.trans heq)
  own invocation hmem := by
    have hown := (hfollows.invoked invocation hmem).elim (h.own invocation) id
    unfold OwnMessage at hown ⊢
    rwa [hfollows.stored]
  full expiry hmem := by
    have hfull := (hfollows.expired expiry hmem).elim (h.full expiry) id
    unfold Elapsed at hfull ⊢
    rw [hfollows.stored]
    exact ⟨hfull.1, hfull.2.trans hfollows.now⟩
  unstored handler hsome := by
    rw [hfollows.stored] at hsome
    obtain ⟨hlt, hnotMem⟩ := h.unstored handler hsome
    exact ⟨hfollows.handlers ▸ hlt, fun hmem => hnotMem (waiting_subset hfollows.timeouts hmem)⟩
  waits waiting hmem := h.waits waiting (hfollows.timeouts waiting hmem)

theorem Follows.refl (s : State) : Follows s s where
  pending x hx := ⟨x, hx, rfl, rfl, rfl, rfl⟩
  errors _ hy := hy
  stored := rfl
  invoked _ := .inl
  expired _ := .inl
  now := le_rfl
  handlers := rfl
  timeouts _ := id

def Loose (s : State) (handler : ℕ) : Prop :=
  s.stored handler = none ∧ handler < s.handlers ∧ handler ∉ waiting s

theorem stored_of_loose {handler other : ℕ} (hloose : Loose s handler) (new : Option Stored)
    {stored : Stored} (h : s.stored other = some stored) :
    Function.update s.stored handler new other = some stored := by
  have hne : other ≠ handler := fun heq => by
    rw [heq, hloose.1] at h
    cases h
  rw [Function.update_of_ne hne, h]

theorem mem_pending_store {key : FakeSessionId} {entry : Entry} {timeout : ℤ}
    {x : Sigma fun _ : FakeSessionId => Entry} (h : x ∈ pending (store key entry timeout s)) :
    x = ⟨key, entry⟩ ∨ x ∈ pending s := by
  obtain hx | hx := mem_pending.1 h
  · exact (Tables.mem_insert_entries hx).imp_right fun hx => mem_pending.2 (.inl hx)
  · exact .inr (mem_pending.2 (.inr hx))

theorem Sound.store (h : Sound s) {key : FakeSessionId} {entry : Entry} {timeout : ℤ}
    (hloose : Loose s entry.handler) (hkeyed : Keyed key entry)
    (herrors : ∀ y ∈ s.errorResponses.entries, key = y.2 → y.1.call = some entry.handler)
    (htimed : s.now + milliseconds timeout = entry.timeoutTime + milliseconds entry.warnThreshold) :
    Sound (store key entry timeout s) where
  keyed x hx := by
    obtain heq | hx := mem_pending_store hx
    · rw [heq]
      exact hkeyed
    · exact h.keyed x hx
  timed x hx := by
    obtain heq | hx := mem_pending_store hx
    · rw [heq]
      exact ⟨⟨entry.message, s.now, timeout⟩, Function.update_self entry.handler _ s.stored, rfl, htimed⟩
    · obtain ⟨stored, hstored, hrest⟩ := h.timed x hx
      exact ⟨stored, stored_of_loose hloose _ hstored, hrest⟩
  errors y hy := by
    obtain ⟨herror, hfaked, hcall⟩ := h.errors y hy
    refine ⟨herror, hfaked, fun x hx heq => ?_⟩
    obtain hnew | hx := mem_pending_store hx
    · rw [hnew] at heq ⊢
      exact herrors y hy heq
    · exact hcall x hx heq
  own invocation hmem := by
    obtain ⟨stored, hstored, hrest⟩ := h.own invocation hmem
    exact ⟨stored, stored_of_loose hloose _ hstored, hrest⟩
  full expiry hmem := by
    obtain ⟨⟨stored, hstored, hrest⟩, hnow⟩ := h.full expiry hmem
    exact ⟨⟨stored, stored_of_loose hloose _ hstored, hrest⟩, hnow⟩
  unstored handler hsome := by
    by_cases heq : handler = entry.handler
    · rw [heq]
      exact hloose.2
    · refine h.unstored handler ?_
      change (Function.update s.stored entry.handler _ handler).isSome at hsome
      rwa [Function.update_of_ne heq] at hsome
  waits := h.waits

theorem milliseconds_sub (a b : ℤ) : milliseconds (a - b) + milliseconds b = milliseconds a := by
  unfold milliseconds
  ring

theorem Sound.send (h : Sound s) (message : MessageObject) (session : Option SessionId) :
    Sound (send message session s).2 := by
  unfold AsyncAnswers.send
  cases session with
  | some session => exact h.follows { Follows.refl s with }
  | none => exact h

theorem send_frame (message : MessageObject) (session : Option SessionId) (s : State) :
    (send message session s).2.stored = s.stored ∧ waiting (send message session s).2 = waiting s ∧
      (send message session s).2.now = s.now ∧ (send message session s).1.call = message.call := by
  unfold send
  cases session with
  | some session => exact ⟨rfl, rfl, rfl, rfl⟩
  | none => exact ⟨rfl, rfl, rfl, rfl⟩

theorem Sound.sendMessageWithReplyAsync (h : Sound s) (timeoutWarnThreshold : Option ℤ)
    {message : MessageObject} {handler : ℕ} (timeout : ℤ) {isConnected : Bool}
    {session : Option SessionId} (hloose : Loose s handler) (hcall : message.call = some handler)
    (hfresh : isConnected = true → Fresh s session) :
    Sound (sendMessageWithReplyAsync timeoutWarnThreshold message handler timeout isConnected session s).2 := by
  unfold AsyncAnswers.sendMessageWithReplyAsync
  cases isConnected with
  | false => exact h
  | true =>
    simp only [Bool.not_true, Bool.false_eq_true, if_false]
    have hsent := h.send message session
    obtain ⟨hstored, hwaiting, hnow, hsentCall⟩ := send_frame message session s
    obtain ⟨_, _, _, hcount, hsession⟩ := send_handlers message session s
    obtain ⟨given, hgiven, hne, _⟩ := hfresh rfl
    have hsome : session = some given := hgiven
    have hnonzero : (AsyncAnswers.send message session s).1.session ≠ 0 := by
      rw [hsession, hsome]
      exact hne
    split
    · exact hsent
    · have hlast : Sound { (AsyncAnswers.send message session s).2 with
          lastSessionId := (AsyncAnswers.send message session s).1.session } :=
        hsent.follows { Follows.refl _ with }
      refine hlast.store ⟨?_, ?_, ?_⟩ ⟨hsentCall.trans hcall, .inr ⟨hnonzero, rfl⟩⟩
        (fun y hy heq => ?_) ?_
      · change (AsyncAnswers.send message session s).2.stored handler = none
        rw [hstored]
        exact hloose.1
      · change handler < (AsyncAnswers.send message session s).2.handlers
        rw [hcount]
        exact hloose.2.1
      · change handler ∉ waiting (AsyncAnswers.send message session s).2
        rw [hwaiting]
        exact hloose.2.2
      · exact absurd heq ((hsent.errors y hy).2.1 _)
      · dsimp only
        rw [add_assoc, milliseconds_sub]

theorem Sound.proxyPushMessageToMainLoop (h : Sound s) {message : MessageObject} {handler : ℕ}
    (hloose : Loose s handler) (hcall : message.call = some handler)
    (herror : message.message.isErrorType) (hroom : message.session = 0 → Unused s) :
    Sound (proxyPushMessageToMainLoop message handler s) := by
  have hnow : s.now + milliseconds ASYNC_MESSAGE_REPLY_TIMEOUT_MS =
      s.now + milliseconds ASYNC_MESSAGE_REPLY_TIMEOUT_MS + milliseconds 0 :=
    (add_zero _).symm
  have harriving : ∀ t : State, Sound t → Sound { t with arriving := t.arriving ++ [message] } :=
    fun t ht => ht.follows { Follows.refl t with }
  unfold AsyncAnswers.proxyPushMessageToMainLoop
  refine harriving _ ?_
  split
  next hzero =>
    obtain ⟨hpending, hresponses⟩ := hroom hzero
    have hpushed : Sound { s with
        fakeSessionId := nextFakeSessionId s.fakeSessionId
        errorResponses := s.errorResponses.insert message (nextKey s) } := by
      refine ⟨h.keyed, h.timed, fun y hy => ?_, h.own, h.full, h.unstored, h.waits⟩
      obtain heq | hy := Tables.mem_insert_entries hy
      · rw [heq]
        exact ⟨herror, nextKey_faked s, fun x hx hkey => absurd hkey (hpending x hx)⟩
      · exact h.errors y hy
    refine hpushed.store hloose ⟨hcall, .inl ⟨hzero, nextKey_faked s⟩⟩ (fun y hy heq => ?_) hnow
    obtain hnew | hy := Tables.mem_insert_entries hy
    · rw [hnew]
      exact hcall
    · exact absurd heq.symm (hresponses y hy)
  next hnonzero =>
    have hgiven : Sound { s with sessions := message.session :: s.sessions } :=
      h.follows { Follows.refl s with }
    exact hgiven.store hloose ⟨hcall, .inr ⟨hnonzero, rfl⟩⟩
      (fun y hy heq => absurd heq ((h.errors y hy).2.1 _)) hnow

theorem Sound.callMethodAsync (h : Sound s) (howned : Owned s) (timeoutWarnThreshold : Option ℤ)
    (message : VsomeipMessage) {isAvailable : Bool} (timeout : ℤ) {isConnected : Bool}
    {session : Option SessionId} (hfresh : isAvailable = true → isConnected = true → Fresh s session) :
    Sound (callMethodAsync timeoutWarnThreshold message isAvailable timeout isConnected session s) := by
  have hmem : ∀ handler ∈ waiting s, handler < s.handlers := fun handler hmem =>
    howned.old handler (Multiset.mem_of_le (waiting_le s) hmem)
  have hnew : s.stored s.handlers = none := by
    by_contra hsome
    exact absurd (h.unstored _ (Option.isSome_iff_ne_none.2 hsome)).1 (lt_irrefl _)
  have hcreated : Sound { s with objects := s.objects + 1, handlers := s.handlers + 1 } := by
    refine ⟨h.keyed, h.timed, h.errors, h.own, h.full, fun handler hsome => ?_, h.waits⟩
    obtain ⟨hlt, hnotMem⟩ := h.unstored handler hsome
    exact ⟨hlt.trans (Nat.lt_succ_self _), hnotMem⟩
  unfold AsyncAnswers.callMethodAsync
  cases isAvailable with
  | true =>
    exact hcreated.sendMessageWithReplyAsync timeoutWarnThreshold timeout
      ⟨hnew, Nat.lt_succ_self _, fun hwaiting => absurd (hmem _ hwaiting) (lt_irrefl _)⟩ rfl (hfresh rfl)
  | false =>
    refine ⟨h.keyed, h.timed, h.errors, h.own, h.full, fun handler hsome => ?_, fun waiting hwaiting => ?_⟩
    · obtain ⟨hlt, hnotMem⟩ := h.unstored handler hsome
      refine ⟨hlt.trans (Nat.lt_succ_self _), fun hwaiting => ?_⟩
      obtain ⟨waiting, hwaiting, heq⟩ := List.mem_map.1 hwaiting
      obtain hold | hlast := List.mem_append.1 hwaiting
      · exact hnotMem (List.mem_map.2 ⟨waiting, hold, heq⟩)
      · rw [List.mem_singleton.1 hlast] at heq
        exact hlt.ne heq.symm
    · obtain hold | hlast := List.mem_append.1 hwaiting
      · exact h.waits waiting hold
      · rw [List.mem_singleton.1 hlast]

theorem Sound.availabilityCallback (h : Sound s) (howned : Owned s) (timeoutWarnThreshold : Option ℤ)
    {i : ℕ} {waiting : Waiting} (hwaiting : s.timeouts[i]? = some waiting) {isAvailable : Bool}
    (remaining : ℤ) {isConnected : Bool} {session : Option SessionId}
    (hok : if isAvailable then isConnected = true → Fresh s session
      else if waiting.message.session = 0 then Unused s else waiting.message.session ∉ s.sessions) :
    Sound (availabilityCallback timeoutWarnThreshold waiting isAvailable remaining isConnected session
      { s with timeouts := s.timeouts.eraseIdx i }) := by
  have hmem := List.mem_of_getElem? hwaiting
  have htaken : Sound { s with timeouts := s.timeouts.eraseIdx i } :=
    h.follows { Follows.refl s with timeouts := fun _ => List.mem_of_mem_eraseIdx }
  have hwaits : waiting.handler ∈ AsyncAnswers.waiting s := List.mem_map.2 ⟨waiting, hmem, rfl⟩
  have hloose : Loose { s with timeouts := s.timeouts.eraseIdx i } waiting.handler := by
    refine ⟨?_, ?_, ?_⟩
    · by_contra hsome
      exact (h.unstored _ (Option.isSome_iff_ne_none.2 hsome)).2 hwaits
    · exact howned.old _ (Multiset.mem_of_le (waiting_le s) hwaits)
    · have hnodup := Multiset.nodup_of_le (waiting_le s) howned.once
      rw [waiting_eraseIdx hwaiting, Multiset.singleton_add] at hnodup
      exact (Multiset.nodup_cons.1 hnodup).1
  have hcall := h.waits waiting hmem
  unfold AsyncAnswers.availabilityCallback
  cases isAvailable with
  | true => exact htaken.sendMessageWithReplyAsync timeoutWarnThreshold _ hloose hcall hok
  | false =>
    have hcreated : Sound { s with timeouts := s.timeouts.eraseIdx i, objects := s.objects + 1 } :=
      htaken.follows { Follows.refl _ with }
    refine hcreated.proxyPushMessageToMainLoop hloose hcall rfl fun hzero => ?_
    exact (if_pos hzero).mp hok

def TakenFor (s : State) (message : MessageObject) (sessionId : FakeSessionId) : Prop :=
  message.session ≠ 0 ∧ fake message.session = sessionId ∨
    ⟨message, sessionId⟩ ∈ s.errorResponses.entries ∨ message.session = 0 ∧ sessionId = 0

theorem sessionOf_takenFor (message : MessageObject) (s : State) :
    TakenFor s message (sessionOf message s).1 := by
  unfold sessionOf
  split
  next hzero =>
    split
    next sessionId hlookup => exact .inr (.inl (Tables.mem_of_lookup hlookup))
    · exact .inr (.inr ⟨hzero, rfl⟩)
  next hnonzero => exact .inl ⟨hnonzero, rfl⟩

theorem sessionOf_frame (message : MessageObject) (s : State) :
    ∃ errorResponses, (sessionOf message s).2 = { s with errorResponses := errorResponses } ∧
      ∀ y ∈ errorResponses.entries, y ∈ s.errorResponses.entries := by
  unfold sessionOf
  split
  · split
    · exact ⟨_, rfl, fun y hy => Tables.mem_of_mem_erase hy⟩
    · exact ⟨_, rfl, fun y hy => hy⟩
  · exact ⟨_, rfl, fun y hy => hy⟩

theorem Sound.ownMessage (h : Sound s) {message : MessageObject} {sessionId : FakeSessionId}
    (htaken : TakenFor s message sessionId) {entry : Entry} (hentry : ⟨sessionId, entry⟩ ∈ pending s)
    (callStatus : MethodCalls.CallStatus) : OwnMessage s ⟨entry.handler, callStatus, message⟩ := by
  obtain ⟨stored, hstored, hmessage, _⟩ := h.timed _ hentry
  refine ⟨stored, hstored, ?_⟩
  obtain ⟨hcall, ⟨hzero, hfaked⟩ | ⟨hnonzero, hkey⟩⟩ := h.keyed _ hentry
  · obtain ⟨_, hsession⟩ | herror | ⟨_, hsession⟩ := htaken
    · exact absurd hsession (hfaked _)
    · obtain ⟨hisError, _, hown⟩ := h.errors _ herror
      exact .inr ⟨hown _ hentry rfl, hisError⟩
    · exact absurd hsession.symm (hfaked 0)
  · obtain ⟨hne, hsession⟩ | herror | ⟨_, hsession⟩ := htaken
    · refine .inl ⟨hne, ?_⟩
      rw [hmessage]
      exact fake_injective (hsession.trans hkey.symm)
    · exact absurd hkey ((h.errors _ herror).2.1 _)
    · have hfake : fake entry.message.session = fake 0 := hkey.trans hsession
      exact absurd (fake_injective hfake) hnonzero

theorem Sound.handleProxyReceive (h : Sound s) (message : MessageObject) :
    Sound (handleProxyReceive message s) := by
  have htaken := sessionOf_takenFor message s
  obtain ⟨errorResponses, hframe, herrors⟩ := sessionOf_frame message s
  have hsession : Follows s { s with errorResponses := errorResponses } :=
    { Follows.refl s with errors := herrors }
  unfold AsyncAnswers.handleProxyReceive
  dsimp only
  rw [hframe]
  split
  · exact h.follows hsession
  · split
    · exact h.follows { hsession with }
    · split
      next entry hlookup =>
        have hentry := mem_pending.2 (.inl (Tables.mem_of_lookup hlookup))
        refine h.follows { hsession with
          pending := fun x hx => ⟨x, ?_, rfl, rfl, rfl, rfl⟩
          invoked := fun invocation hmem => ?_ }
        · exact mem_pending.2 ((mem_pending.1 hx).imp_left Tables.mem_of_mem_erase)
        · refine (List.mem_append.1 hmem).imp_right fun hmem => ?_
          rw [List.mem_singleton.1 hmem]
          exact h.ownMessage htaken hentry _
      · split
        next entry hlookup =>
          have hentry := mem_pending.2 (.inr (.inl (Tables.mem_of_lookup hlookup)))
          refine h.follows { hsession with
            pending := fun x hx => ⟨x, ?_, rfl, rfl, rfl, rfl⟩
            invoked := fun invocation hmem => ?_ }
          · exact mem_pending.2 ((mem_pending.1 hx).imp_right (Or.imp_left Tables.mem_of_mem_erase))
          · refine (List.mem_append.1 hmem).imp_right fun hmem => ?_
            rw [List.mem_singleton.1 hmem]
            exact h.ownMessage htaken hentry _
        · exact h.follows hsession

theorem mem_start_worker {worker : Worker} {answers : Answers} {x : Sigma fun _ : FakeSessionId => Entry}
    (h : x ∈ pending { s with asyncAnswers := answers, workers := s.workers ++ [worker] }) :
    x ∈ answers.entries ∨ x ∈ worker.asyncAnswersToProcess.entries ∨ x ∈ pending s := by
  obtain hx | hx | ⟨other, hmem, hx⟩ := mem_pending.1 h
  · exact .inl hx
  · exact .inr (.inr (mem_pending.2 (.inr (.inl hx))))
  · obtain hold | hnew := List.mem_append.1 hmem
    · exact .inr (.inr (mem_pending.2 (.inr (.inr ⟨other, hold, hx⟩))))
    · rw [List.mem_singleton.1 hnew] at hx
      exact .inr (.inl hx)

theorem warned_deadline (now : Time) (entry : Entry) : (warned now entry).message = entry.message ∧
    entry.timeoutTime + milliseconds entry.warnThreshold =
      (warned now entry).timeoutTime + milliseconds (warned now entry).warnThreshold := by
  unfold warned
  split
  · exact ⟨rfl, (add_zero _).symm⟩
  · exact ⟨rfl, rfl⟩

theorem Sound.cleanup (h : Sound s) {now : Time} (hnow : now ≤ s.now) : Sound (cleanup now s) := by
  have hwarned : ∀ x ∈ (Tables.map (warned now) s.asyncAnswers).entries,
      ∃ old ∈ pending s, old.1 = x.1 ∧ old.2.message = x.2.message ∧ old.2.handler = x.2.handler ∧
        old.2.timeoutTime + milliseconds old.2.warnThreshold =
          x.2.timeoutTime + milliseconds x.2.warnThreshold := by
    intro x hx
    obtain ⟨old, hold, heq⟩ := Tables.mem_map.1 hx
    obtain ⟨hmessage, hdeadline⟩ := warned_deadline now old.2
    rw [← heq]
    exact ⟨old, mem_pending.2 (.inl hold), rfl, hmessage.symm, (warned_handler now old.2).symm, hdeadline⟩
  refine h.follows { Follows.refl s with
    pending := fun x hx => ?_
    expired := fun expiry hmem => ?_ }
  · obtain hx | hx | hx := mem_start_worker hx
    · exact hwarned x (Tables.mem_filter.1 hx).1
    · exact hwarned x (Tables.mem_filter.1 hx).1
    · exact ⟨x, hx, rfl, rfl, rfl, rfl⟩
  · refine (List.mem_append.1 hmem).imp_right fun hmem => ?_
    obtain ⟨x, hx, heq⟩ := List.mem_map.1 hmem
    obtain ⟨hx, hexpired⟩ := Tables.mem_filter.1 hx
    obtain ⟨hlt, hzero⟩ := of_decide_eq_true hexpired
    obtain ⟨old, hold, _, hmessage, hhandler, htime⟩ := hwarned x hx
    obtain ⟨stored, hstored, _, hdeadline⟩ := h.timed old hold
    rw [← heq]
    refine ⟨⟨stored, hhandler ▸ hstored, ?_⟩, hnow⟩
    rw [hdeadline, htime, hzero]
    exact (add_zero _).trans_lt hlt

theorem Sound.cancelAsyncAnswers (h : Sound s) (service : ServiceId) (instance_ : InstanceId) :
    Sound (cancelAsyncAnswers service instance_ s) := by
  refine h.follows { Follows.refl s with pending := fun x hx => ⟨x, ?_, rfl, rfl, rfl, rfl⟩ }
  obtain hx | hx | hx := mem_start_worker hx
  · exact mem_pending.2 (.inl (Tables.mem_filter.1 hx).1)
  · exact mem_pending.2 (.inl (Tables.mem_filter.1 hx).1)
  · exact hx

theorem mem_pending_worker {i : ℕ} {worker : Worker} (hworker : s.workers[i]? = some worker)
    {x : Sigma fun _ : FakeSessionId => Entry} (hx : x ∈ worker.asyncAnswersToProcess.entries) :
    x ∈ pending s :=
  mem_pending.2 (.inr (.inr ⟨worker, List.mem_of_getElem? hworker, hx⟩))

theorem mem_set_worker {i : ℕ} {new : Worker} {x : Sigma fun _ : FakeSessionId => Entry}
    (h : ∃ worker ∈ s.workers.set i new, x ∈ worker.asyncAnswersToProcess.entries) :
    x ∈ pending s ∨ x ∈ new.asyncAnswersToProcess.entries := by
  obtain ⟨other, hmem, hx⟩ := h
  obtain hold | hnew := List.mem_or_eq_of_mem_set hmem
  · exact .inl (mem_pending.2 (.inr (.inr ⟨other, hold, hx⟩)))
  · rw [hnew] at hx
    exact .inr hx

theorem Sound.processAnswer (h : Sound s) {i : ℕ} {worker : Worker} {key : FakeSessionId} {entry : Entry}
    (hworker : s.workers[i]? = some worker)
    (hlookup : worker.asyncAnswersToProcess.lookup key = some entry) (mainLoop throws : Bool) :
    Sound (processAnswer i worker key entry mainLoop throws s) := by
  have hentry := mem_pending_worker hworker (Tables.mem_of_lookup hlookup)
  unfold AsyncAnswers.processAnswer createErrorResponse
  cases mainLoop with
  | true =>
    refine h.follows { Follows.refl s with pending := fun x hx => ⟨x, ?_, rfl, rfl, rfl, rfl⟩ }
    obtain hx | hx | hx := mem_pending.1 hx
    · exact mem_pending.2 (.inl hx)
    · obtain heq | hx := Tables.mem_insert_entries hx
      · rw [heq]
        exact hentry
      · exact mem_pending.2 (.inr (.inl hx))
    · exact (mem_set_worker hx).elim id fun hx =>
        mem_pending_worker hworker (Tables.mem_of_mem_erase hx)
  | false =>
    refine h.follows { Follows.refl s with
      pending := fun x hx => ⟨x, ?_, rfl, rfl, rfl, rfl⟩
      invoked := fun invocation hmem => ?_ }
    · obtain hx | hx | hx := mem_pending.1 hx
      · exact mem_pending.2 (.inl hx)
      · exact mem_pending.2 (.inr (.inl hx))
      · refine (mem_set_worker hx).elim id fun hx => ?_
        dsimp only at hx
        split at hx
        · exact absurd hx List.not_mem_nil
        · exact mem_pending_worker hworker (Tables.mem_of_mem_erase hx)
    · refine (List.mem_append.1 hmem).imp_right fun hmem => ?_
      obtain ⟨stored, hstored, _⟩ := h.timed _ hentry
      rw [List.mem_singleton.1 hmem]
      exact ⟨stored, hstored, .inr ⟨(h.keyed _ hentry).1, rfl⟩⟩

theorem Sound.pushQueue (h : Sound s) {i : ℕ} {worker : Worker} (hworker : s.workers[i]? = some worker)
    (message : MessageObject) :
    Sound { s with
      queue := s.queue ++ [message]
      workers := s.workers.set i { worker with toPush := none } } := by
  refine h.follows { Follows.refl s with pending := fun x hx => ⟨x, ?_, rfl, rfl, rfl, rfl⟩ }
  obtain hx | hx | hx := mem_pending.1 hx
  · exact mem_pending.2 (.inl hx)
  · exact mem_pending.2 (.inr (.inl hx))
  · exact (mem_set_worker hx).elim id (mem_pending_worker hworker)

/-- The step has nothing to do with blocking calls. -/
structure Apart (s t : State) : Prop where
  blocked : t.blocked = s.blocked
  answers : t.sendAndBlockAnswers = s.sendAndBlockAnswers
  returned : t.returned = s.returned
  sessions : ∀ session ∈ s.sessions, session ∈ t.sessions

theorem Apart.refl (s : State) : Apart s s := ⟨rfl, rfl, rfl, fun _ => id⟩

theorem Blocking.apart (h : Blocking s) (hapart : Apart s t) : Blocking t where
  given blocked hmem := by
    rw [hapart.blocked] at hmem
    exact ⟨(h.given blocked hmem).1, hapart.sessions _ (h.given blocked hmem).2⟩
  once := hapart.blocked ▸ h.once
  blocked := by
    rw [hapart.answers, hapart.blocked]
    exact h.blocked
  answers := by
    rw [hapart.answers]
    exact h.answers
  returned := by
    rw [hapart.returned]
    exact h.returned

theorem send_apart (message : MessageObject) (session : Option SessionId) (s : State) :
    Apart s (send message session s).2 := by
  unfold send
  cases session with
  | some session => exact { Apart.refl s with sessions := fun _ => List.mem_cons_of_mem _ }
  | none => exact Apart.refl s

theorem sendMessageWithReplyAsync_apart (timeoutWarnThreshold : Option ℤ) (message : MessageObject)
    (handler : ℕ) (timeout : ℤ) (isConnected : Bool) (session : Option SessionId) (s : State) :
    Apart s (sendMessageWithReplyAsync timeoutWarnThreshold message handler timeout isConnected
      session s).2 := by
  have hsend := send_apart message session s
  unfold sendMessageWithReplyAsync
  dsimp only
  split
  · exact Apart.refl s
  · split
    · exact hsend
    · exact { hsend with }

theorem proxyPushMessageToMainLoop_apart (message : MessageObject) (handler : ℕ) (s : State) :
    Apart s (proxyPushMessageToMainLoop message handler s) := by
  unfold proxyPushMessageToMainLoop
  dsimp only
  split
  · exact { Apart.refl s with }
  · exact { Apart.refl s with sessions := fun _ => List.mem_cons_of_mem _ }

theorem callMethodAsync_apart (timeoutWarnThreshold : Option ℤ) (message : VsomeipMessage)
    (isAvailable : Bool) (timeout : ℤ) (isConnected : Bool) (session : Option SessionId) (s : State) :
    Apart s (callMethodAsync timeoutWarnThreshold message isAvailable timeout isConnected session s) := by
  unfold callMethodAsync
  dsimp only
  split
  · exact { sendMessageWithReplyAsync_apart timeoutWarnThreshold ⟨s.objects, some s.handlers, message⟩
      s.handlers timeout isConnected session
      { s with objects := s.objects + 1, handlers := s.handlers + 1 } with }
  · exact { Apart.refl s with }

theorem availabilityCallback_apart (timeoutWarnThreshold : Option ℤ) (waiting : Waiting)
    (isAvailable : Bool) (remaining : ℤ) (isConnected : Bool) (session : Option SessionId) (s : State) :
    Apart s (availabilityCallback timeoutWarnThreshold waiting isAvailable remaining isConnected
      session s) := by
  unfold availabilityCallback
  dsimp only
  split
  · exact sendMessageWithReplyAsync_apart timeoutWarnThreshold waiting.message waiting.handler
      (if remaining < 100 then 100 else remaining) isConnected session s
  · exact { proxyPushMessageToMainLoop_apart
      ⟨s.objects, waiting.message.call,
        waiting.message.message.createErrorResponseMessage .notReachable⟩ waiting.handler
      { s with objects := s.objects + 1 } with }

theorem receive_apart (message : MessageObject) (mainLoop : Bool) (s : State) :
    Apart s (receive message mainLoop s) := by
  unfold receive
  split <;> (try split) <;> exact { Apart.refl s with }

theorem Sound.receive (h : Sound s) (message : MessageObject) (mainLoop : Bool)
    (arriving : List MessageObject) :
    Sound (receive message mainLoop { s with arriving := arriving }) := by
  unfold AsyncAnswers.receive
  split <;> (try split) <;> exact h.follows { Follows.refl s with }

theorem Sound.startBlocking (h : Sound s) (message : VsomeipMessage) (timeout : ℤ) (isConnected : Bool)
    (session : Option SessionId) (isAvailable : Bool) :
    Sound (startBlocking message timeout isConnected session isAvailable s) := by
  have hcreated : Sound { s with objects := s.objects + 1 } := h.follows { Follows.refl s with }
  have hsent := hcreated.send ⟨s.objects, none, message⟩ session
  unfold AsyncAnswers.startBlocking
  dsimp only
  split
  · exact h.follows { Follows.refl s with }
  · split
    · exact hsent.follows { Follows.refl _ with }
    · split <;> exact hsent.follows { Follows.refl _ with }

theorem Blocking.returnsNothing (h : Blocking s) (session : SessionId) :
    Blocking { s with returned := s.returned ++ [⟨session, none⟩] } := by
  refine ⟨h.given, h.once, h.blocked, h.answers, fun returned hmem message hmessage => ?_⟩
  obtain hold | hnew := List.mem_append.1 hmem
  · exact h.returned returned hold message hmessage
  · rw [List.mem_singleton.1 hnew] at hmessage
    cases hmessage

theorem Blocking.startBlocking (h : Blocking s) (message : VsomeipMessage) (timeout : ℤ)
    {isConnected : Bool} {session : Option SessionId} (isAvailable : Bool)
    (hfresh : isConnected = true → Fresh s session) :
    Blocking (startBlocking message timeout isConnected session isAvailable s) := by
  unfold AsyncAnswers.startBlocking
  cases isConnected with
  | false => exact h.returnsNothing message.session
  | true =>
    obtain ⟨given, hgiven, hne, hnew⟩ := hfresh rfl
    have hsome : session = some given := hgiven
    subst hsome
    have hsent : Blocking { s with objects := s.objects + 1, sessions := given :: s.sessions } :=
      h.apart { Apart.refl s with sessions := fun _ => List.mem_cons_of_mem _ }
    simp only [Bool.not_true, Bool.false_eq_true, if_false]
    split
    · exact hsent.returnsNothing given
    · split
      · exact hsent.returnsNothing given
      · change Blocking { s with
          objects := s.objects + 1
          sessions := given :: s.sessions
          sendAndBlockAnswers := s.sendAndBlockAnswers.insert (fake given) none
          blocked := s.blocked ++ [⟨given, s.now + milliseconds timeout⟩] }
        refine ⟨fun blocked hmem => ?_, ?_, fun sessionId => ?_, fun y hy message hmessage => ?_, h.returned⟩
        · obtain hold | hlast := List.mem_append.1 hmem
          · exact hsent.given blocked hold
          · rw [List.mem_singleton.1 hlast]
            exact ⟨hne, List.mem_cons_self⟩
        · rw [List.map_append]
          refine h.once.append (List.nodup_singleton _) fun old hold hlast => ?_
          obtain ⟨blocked, hmem, heq⟩ := List.mem_map.1 hold
          have hsame : blocked.session = given := heq.trans (List.mem_singleton.1 hlast)
          exact hnew (hsame ▸ (h.given blocked hmem).2)
        · rw [AList.mem_insert, h.blocked sessionId]
          constructor
          · rintro (heq | ⟨blocked, hmem, heq⟩)
            · exact ⟨_, List.mem_append_right _ List.mem_cons_self, heq.symm⟩
            · exact ⟨blocked, List.mem_append_left _ hmem, heq⟩
          · rintro ⟨blocked, hmem, heq⟩
            obtain hold | hlast := List.mem_append.1 hmem
            · exact .inr ⟨blocked, hold, heq⟩
            · rw [List.mem_singleton.1 hlast] at heq
              exact .inl heq.symm
        · obtain heq | hy := Tables.mem_insert_entries hy
          · rw [heq] at hmessage
            cases hmessage
          · exact h.answers y hy message hmessage

theorem Blocking.finishBlocking (h : Blocking s) {i : ℕ} {blocked : Blocked}
    (hblocked : s.blocked[i]? = some blocked) : Blocking (finishBlocking i blocked s) := by
  have hperm := Tables.eraseIdx_perm hblocked
  have honce : (blocked.session :: (s.blocked.eraseIdx i).map Blocked.session).Nodup :=
    (hperm.map Blocked.session).nodup_iff.1 h.once
  obtain ⟨hnotMem, hrest⟩ := List.nodup_cons.1 honce
  refine ⟨fun other hmem => h.given other (List.mem_of_mem_eraseIdx hmem), hrest, fun sessionId => ?_,
    fun y hy => h.answers y (Tables.mem_of_mem_erase hy), fun returned hmem message hmessage => ?_⟩
  · change sessionId ∈ s.sendAndBlockAnswers.erase (fake blocked.session) ↔ _
    rw [AList.mem_erase, h.blocked sessionId]
    constructor
    · rintro ⟨hne, other, hmem, heq⟩
      obtain hsame | hmem := List.mem_cons.1 (hperm.mem_iff.1 hmem)
      · rw [hsame] at heq
        exact absurd heq.symm hne
      · exact ⟨other, hmem, heq⟩
    · rintro ⟨other, hmem, heq⟩
      refine ⟨fun hsame => hnotMem ?_, other, List.mem_of_mem_eraseIdx hmem, heq⟩
      rw [← fake_injective (heq.trans hsame)]
      exact List.mem_map_of_mem hmem
  · obtain hold | hnew := List.mem_append.1 hmem
    · exact h.returned returned hold message hmessage
    · rw [List.mem_singleton.1 hnew] at hmessage ⊢
      have hanswer : (s.sendAndBlockAnswers.lookup (fake blocked.session)).join = some message := hmessage
      have hmem := Tables.mem_of_lookup (Option.join_eq_some_iff.1 hanswer)
      exact fake_injective (h.answers _ hmem message rfl)

theorem Blocking.handleProxyReceive (h : Blocking s) (hsound : Sound s) (message : MessageObject) :
    Blocking (handleProxyReceive message s) := by
  have htaken := sessionOf_takenFor message s
  obtain ⟨errorResponses, hframe, _⟩ := sessionOf_frame message s
  have happart : Apart s { s with errorResponses := errorResponses } := { Apart.refl s with }
  unfold AsyncAnswers.handleProxyReceive
  dsimp only
  rw [hframe]
  split
  · exact h.apart happart
  · split
    next hmem =>
      have hwaits : (sessionOf message s).1 ∈ s.sendAndBlockAnswers := hmem
      obtain ⟨blocked, hblocked, hfake⟩ := (h.blocked _).1 hwaits
      have hown : fake message.session = (sessionOf message s).1 := by
        obtain ⟨_, hsession⟩ | herror | ⟨_, hzero⟩ := htaken
        · exact hsession
        · exact absurd hfake ((hsound.errors _ herror).2.1 _)
        · have hfakeZero : fake blocked.session = fake 0 := hfake.trans hzero
          exact absurd (fake_injective hfakeZero) (h.given blocked hblocked).1
      refine ⟨h.given, h.once, fun sessionId => ?_, fun y hy answer hanswer => ?_, h.returned⟩
      · change sessionId ∈ s.sendAndBlockAnswers.insert (sessionOf message s).1 (some message) ↔ _
        rw [AList.mem_insert, h.blocked sessionId]
        refine ⟨?_, .inr⟩
        rintro (heq | hold)
        · exact ⟨blocked, hblocked, hfake.trans heq.symm⟩
        · exact hold
      · obtain heq | hy := Tables.mem_insert_entries hy
        · rw [heq] at hanswer ⊢
          cases hanswer
          exact hown
        · exact h.answers y hy answer hanswer
    · split
      · exact h.apart { happart with }
      · split
        · exact h.apart { happart with }
        · exact h.apart happart

structure Good (s : State) : Prop where
  owned : Owned s
  sound : Sound s
  blocking : Blocking s

theorem Good.matched (h : Good s) : Matched s where
  once := Multiset.coe_nodup.1 (Multiset.nodup_of_le (answered_le s) h.owned.once)
  own := h.sound.own
  full expiry hmem := by
    obtain ⟨⟨stored, hstored, hlt⟩, hnow⟩ := h.sound.full expiry hmem
    exact ⟨stored, hstored, hlt, hnow⟩
  returned := h.blocking.returned
  blocked := h.blocking.blocked

theorem initial_sound : Sound initial where
  keyed _ h := by cases h
  timed _ h := by cases h
  errors _ h := by cases h
  own _ h := by cases h
  full _ h := by cases h
  unstored _ h := by cases h
  waits _ h := by cases h

theorem initial_blocking : Blocking initial where
  given _ h := by cases h
  once := List.nodup_nil
  blocked sessionId := by
    refine iff_of_false (AList.notMem_empty sessionId) ?_
    rintro ⟨_, h, _⟩
    cases h
  answers _ h := by cases h
  returned _ h := by cases h

theorem initial_good : Good initial := ⟨initial_owned, initial_sound, initial_blocking⟩

theorem step_sound {timeoutWarnThreshold : Option ℤ} {a : Action} (h : Good s)
    (hok : Distinct Unused s a) (hstep : step timeoutWarnThreshold s a = some t) :
    Sound t ∧ Blocking t := by
  cases a with
  | callMethodAsync message isAvailable timeout isConnected session =>
    cases hstep
    exact ⟨h.sound.callMethodAsync h.owned timeoutWarnThreshold message timeout hok,
      h.blocking.apart (callMethodAsync_apart timeoutWarnThreshold message isAvailable timeout isConnected
        session s)⟩
  | availabilityCallback i isAvailable remaining isConnected session =>
    obtain ⟨waiting, hwaiting, heq⟩ := Option.map_eq_some_iff.1 hstep
    subst heq
    exact ⟨h.sound.availabilityCallback h.owned timeoutWarnThreshold hwaiting remaining
        (hok waiting hwaiting),
      h.blocking.apart { availabilityCallback_apart timeoutWarnThreshold waiting isAvailable remaining
        isConnected session { s with timeouts := s.timeouts.eraseIdx i } with }⟩
  | startBlocking message timeout isConnected session isAvailable =>
    cases hstep
    exact ⟨h.sound.startBlocking message timeout isConnected session isAvailable,
      h.blocking.startBlocking message timeout isAvailable hok⟩
  | finishBlocking i isAvailable =>
    obtain ⟨blocked, hblocked, hfinish⟩ := Option.bind_eq_some_iff.1 hstep
    split at hfinish
    · cases hfinish
      exact ⟨h.sound.follows { Follows.refl s with }, h.blocking.finishBlocking hblocked⟩
    · cases hfinish
  | deliver message =>
    cases hstep
    exact ⟨h.sound.follows { Follows.refl s with }, h.blocking.apart { Apart.refl s with }⟩
  | receive i mainLoop =>
    obtain ⟨message, _, heq⟩ := Option.map_eq_some_iff.1 hstep
    subst heq
    exact ⟨h.sound.receive message mainLoop (s.arriving.eraseIdx i),
      h.blocking.apart { receive_apart message mainLoop { s with arriving := s.arriving.eraseIdx i } with }⟩
  | dispatch i =>
    obtain ⟨message, _, heq⟩ := Option.map_eq_some_iff.1 hstep
    subst heq
    exact ⟨h.sound.follows { Follows.refl s with }, h.blocking.apart { Apart.refl s with }⟩
  | handleProxyReceive i =>
    obtain ⟨message, _, heq⟩ := Option.map_eq_some_iff.1 hstep
    subst heq
    have hsound : Sound { s with handling := s.handling.eraseIdx i } :=
      h.sound.follows { Follows.refl s with }
    have hblocking : Blocking { s with handling := s.handling.eraseIdx i } :=
      h.blocking.apart { Apart.refl s with }
    exact ⟨hsound.handleProxyReceive message, hblocking.handleProxyReceive hsound message⟩
  | cleanup now =>
    change (if now ≤ s.now then _ else _) = _ at hstep
    split at hstep
    next hnow =>
      cases hstep
      exact ⟨h.sound.cleanup hnow, h.blocking.apart { Apart.refl s with }⟩
    · cases hstep
  | cancelAsyncAnswers service instance_ =>
    cases hstep
    exact ⟨h.sound.cancelAsyncAnswers service instance_, h.blocking.apart { Apart.refl s with }⟩
  | processAnswer i key mainLoop throws =>
    obtain ⟨worker, hworker, hprocess⟩ := Option.bind_eq_some_iff.1 hstep
    split at hprocess
    · cases hprocess
    · obtain ⟨entry, hlookup, heq⟩ := Option.map_eq_some_iff.1 hprocess
      subst heq
      refine ⟨h.sound.processAnswer hworker hlookup mainLoop throws, h.blocking.apart ?_⟩
      unfold processAnswer
      cases mainLoop <;> exact { Apart.refl s with }
  | pushQueue i =>
    obtain ⟨worker, hworker, hpush⟩ := Option.bind_eq_some_iff.1 hstep
    obtain ⟨message, _, heq⟩ := Option.map_eq_some_iff.1 hpush
    subst heq
    exact ⟨h.sound.pushQueue hworker message, h.blocking.apart { Apart.refl s with }⟩
  | elapse time =>
    cases hstep
    refine ⟨h.sound.follows { Follows.refl s with now := ?_ }, h.blocking.apart { Apart.refl s with }⟩
    exact le_add_of_nonneg_right (Int.natCast_nonneg time)

theorem step_good {timeoutWarnThreshold : Option ℤ} {a : Action} (h : Good s)
    (hok : Distinct Unused s a) (hstep : step timeoutWarnThreshold s a = some t) : Good t :=
  ⟨step_owned h.owned hstep, (step_sound h hok hstep).1, (step_sound h hok hstep).2⟩

/-- In every run in which vsomeip gives different sessions, and no session is made up that is still in
    use, replies reach their calls. -/
theorem replies_matched {timeoutWarnThreshold : Option ℤ}
    (h : Reachable (step timeoutWarnThreshold) (Distinct Unused) initial s) : Matched s :=
  (h.invariant initial_good fun _ _ _ => step_good).matched

instance (s : State) : (session : Option SessionId) → Decidable (Fresh s session)
  | none => .isFalse fun ⟨_, h, _⟩ => by cases h
  | some given =>
    decidable_of_iff (given ≠ 0 ∧ given ∉ s.sessions)
      ⟨fun h => ⟨given, rfl, h⟩, fun ⟨_, heq, h⟩ => Option.some.inj heq ▸ h⟩

instance (s : State) : Decidable (Unused s) :=
  @instDecidableAnd _ _ (List.decidableBAll _ _) (List.decidableBAll _ _)

instance (s : State) : (a : Action) → Decidable (Distinct Unused s a)
  | .callMethodAsync _ isAvailable _ isConnected session =>
    inferInstanceAs (Decidable (isAvailable = true → isConnected = true → Fresh s session))
  | .availabilityCallback i isAvailable _ isConnected session =>
    inferInstanceAs (Decidable (∀ waiting ∈ s.timeouts[i]?,
      if isAvailable then isConnected = true → Fresh s session
      else if waiting.message.session = 0 then Unused s
      else waiting.message.session ∉ s.sessions))
  | .startBlocking _ _ isConnected session _ =>
    inferInstanceAs (Decidable (isConnected = true → Fresh s session))
  | .finishBlocking .. | .deliver _ | .receive .. | .dispatch _ | .handleProxyReceive _ | .cleanup _
  | .cancelAsyncAnswers .. | .processAnswer .. | .pushQueue _ | .elapse _ => .isTrue trivial

def reply (method : MethodId) (session : SessionId) : VsomeipMessage :=
  { VsomeipMessage.createMethodCall ⟨1, 1, 1, 0⟩ method with
    session := session
    messageType := .response }

/-- With a main loop: a blocking call, a call that is answered twice, one that finds no service, and
    one that times out after its warn threshold. -/
def differentCalls : List Action :=
  [.callMethodAsync (VsomeipMessage.createMethodCall ⟨1, 1, 1, 0⟩ 1) true 1000 true (some 1),
    .startBlocking (VsomeipMessage.createMethodCall ⟨1, 1, 1, 0⟩ 2) 1000 true (some 2) true,
    .deliver (reply 2 2), .receive 0 true, .handleProxyReceive 0, .finishBlocking 0 true,
    .deliver (reply 1 1), .deliver (reply 1 1), .receive 0 true, .receive 0 true, .dispatch 0,
    .dispatch 0, .handleProxyReceive 0, .handleProxyReceive 0,
    .callMethodAsync (VsomeipMessage.createMethodCall ⟨1, 1, 1, 0⟩ 3) false 1000 true none,
    .availabilityCallback 0 false 0 true none, .receive 0 true, .dispatch 0, .handleProxyReceive 0,
    .callMethodAsync (VsomeipMessage.createMethodCall ⟨1, 1, 1, 0⟩ 4) true 1000 true (some 3),
    .elapse 750000001, .cleanup 750000001, .elapse 250000000, .cleanup 1000000001,
    .processAnswer 1 3 true false, .pushQueue 1, .dispatch 0, .handleProxyReceive 0]

theorem different_calls_matched : ∃ s, run (step (some 500)) initial differentCalls = some s ∧
    s.invoked.map Invocation.handler = [0, 1, 2] ∧ s.expired.map Expiry.handler = [2] ∧
    (s.returned.map fun returned => returned.answer.isSome) = [true] ∧ Matched s := by
  have hrun : ∃ s, run (step (some 500)) initial differentCalls = some s ∧
      s.invoked.map Invocation.handler = [0, 1, 2] ∧ s.expired.map Expiry.handler = [2] ∧
      (s.returned.map fun returned => returned.answer.isSome) = [true] :=
    ⟨_, rfl, by decide, by decide, by decide⟩
  obtain ⟨s, hs, hinvoked, hexpired, hreturned⟩ := hrun
  exact ⟨s, hs, hinvoked, hexpired, hreturned, replies_matched (.of_run differentCalls (by decide) hs)⟩

def firstCall : VsomeipMessage := VsomeipMessage.createMethodCall ⟨1, 1, 1, 0⟩ 1

/-- The error response of the first call, whose thread comes to `receive` last. -/
def firstResponse : MessageObject :=
  ⟨1, some 0, firstCall.createErrorResponseMessage .notReachable⟩

def firstKey : FakeSessionId := 0x10000

def firstEntry : Entry := ⟨milliseconds ASYNC_MESSAGE_REPLY_TIMEOUT_MS, firstResponse, 0, 0⟩

def preempted (objects handlers : ℕ) (fakeSessionId : BitVec 16) (stored : ℕ → Option Stored)
    (invoked : List Invocation) : State :=
  { initial with
    objects := objects
    handlers := handlers
    fakeSessionId := fakeSessionId
    asyncAnswers := (∅ : Answers).insert firstKey firstEntry
    errorResponses := (∅ : AList fun _ : MessageObject => FakeSessionId).insert firstResponse firstKey
    arriving := [firstResponse]
    stored := stored
    invoked := invoked }

abbrev Room (s : State) : Prop := synthetic s < 65535

def otherCall : VsomeipMessage := VsomeipMessage.createMethodCall ⟨1, 1, 1, 0⟩ 2

def otherResponse (objects handlers : ℕ) : MessageObject :=
  ⟨objects + 1, some handlers, otherCall.createErrorResponseMessage .notReachable⟩

def otherEntry (objects handlers : ℕ) : Entry :=
  ⟨milliseconds ASYNC_MESSAGE_REPLY_TIMEOUT_MS, otherResponse objects handlers, handlers, 0⟩

theorem first_preempted : ∃ stored, Reachable (step none) (Distinct Room) initial
    (preempted 2 1 1 stored []) := by
  have hcreated : Reachable (step none) (Distinct Room) initial
      { initial with
        objects := 1
        handlers := 1
        timeouts := [⟨0, ⟨0, some 0, firstCall⟩⟩] } :=
    Reachable.start.next (a := .callMethodAsync firstCall false 0 true none) (fun h => by cases h) rfl
  refine ⟨_, hcreated.next (a := .availabilityCallback 0 false 0 true none) ?_ rfl⟩
  intro waiting hwaiting
  cases hwaiting
  change 0 < 65535
  decide

def pushed (objects handlers : ℕ) (fakeSessionId : BitVec 16) (stored : ℕ → Option Stored)
    (invoked : List Invocation) : State :=
  { preempted (objects + 2) (handlers + 1) fakeSessionId stored invoked with
    asyncAnswers := ((∅ : Answers).insert firstKey firstEntry).insert
      (fakeSessionId.setWidth 32 <<< 16) (otherEntry objects handlers)
    errorResponses :=
      ((∅ : AList fun _ : MessageObject => FakeSessionId).insert firstResponse firstKey).insert
        (otherResponse objects handlers) (fakeSessionId.setWidth 32 <<< 16)
    arriving := [firstResponse, otherResponse objects handlers] }

section Overtaken
variable {objects handlers : ℕ} {fakeSessionId : BitVec 16} {stored : ℕ → Option Stored}
  {invoked : List Invocation}

theorem proxyPushMessageToMainLoop_made_up {message : MessageObject} (h : message.session = 0)
    (handler : ℕ) (s : State) : proxyPushMessageToMainLoop message handler s =
      { s with
        fakeSessionId := nextFakeSessionId s.fakeSessionId
        errorResponses := s.errorResponses.insert message (nextKey s)
        asyncAnswers := s.asyncAnswers.insert (nextKey s)
          ⟨s.now + milliseconds ASYNC_MESSAGE_REPLY_TIMEOUT_MS, message, handler, 0⟩
        stored := Function.update s.stored handler
          (some ⟨message, s.now, ASYNC_MESSAGE_REPLY_TIMEOUT_MS⟩)
        arriving := s.arriving ++ [message] } := by
  unfold proxyPushMessageToMainLoop
  dsimp only
  rw [if_pos h]
  rfl

theorem other_pushed (h : Reachable (step none) (Distinct Room) initial
      (preempted objects handlers fakeSessionId stored invoked)) :
    ∃ newStored, Reachable (step none) (Distinct Room) initial
      (pushed objects handlers (nextFakeSessionId fakeSessionId) newStored invoked) := by
  have hcreated : Reachable (step none) (Distinct Room) initial
      { preempted (objects + 1) (handlers + 1) fakeSessionId stored invoked with
        timeouts := [⟨handlers, ⟨objects, some handlers, otherCall⟩⟩] } :=
    h.next (a := .callMethodAsync otherCall false 0 true none) (fun h => by cases h) rfl
  have hroom : Distinct Room
      { preempted (objects + 1) (handlers + 1) fakeSessionId stored invoked with
        timeouts := [⟨handlers, ⟨objects, some handlers, otherCall⟩⟩] }
      (.availabilityCallback 0 false 0 true none) := by
    intro waiting hwaiting
    cases hwaiting
    change 1 < 65535
    decide
  have hpush := proxyPushMessageToMainLoop_made_up
    (show (otherResponse objects handlers).session = 0 from rfl) handlers
      (preempted (objects + 2) (handlers + 1) fakeSessionId stored invoked)
  exact ⟨_, hcreated.next hroom (congrArg some hpush)⟩

theorem otherResponse_ne : otherResponse objects handlers ≠ firstResponse := by
  intro h
  have hmethod : (2 : MethodId) = 1 := congrArg (fun message : MessageObject => message.message.method) h
  exact absurd hmethod (by decide)

theorem handleProxyReceive_made_up {message : MessageObject} {key : FakeSessionId} {entry : Entry}
    {errorResponses : AList fun _ : MessageObject => FakeSessionId} {asyncAnswers : Answers}
    (hsession : message.session = 0) (hlookup : s.errorResponses.lookup message = some key)
    (htype : message.message.messageType ≠ .notification) (hblocked : key ∉ s.sendAndBlockAnswers)
    (hentry : s.asyncAnswers.lookup key = some entry)
    (herrors : s.errorResponses.erase message = errorResponses)
    (hanswers : s.asyncAnswers.erase key = asyncAnswers) : handleProxyReceive message s =
      { s with
        errorResponses := errorResponses
        asyncAnswers := asyncAnswers
        invoked := s.invoked ++
          [⟨entry.handler, MethodCalls.replyStatus message.message.returnCode, message⟩] } := by
  have htaken : sessionOf message s = (key, { s with errorResponses := errorResponses }) := by
    unfold sessionOf
    rw [if_pos hsession, hlookup, herrors]
  unfold handleProxyReceive
  rw [htaken]
  dsimp only
  rw [if_neg htype, if_neg hblocked, hentry, hanswers]

theorem other_answered (hkey : fakeSessionId.setWidth 32 <<< 16 ≠ firstKey)
    (h : Reachable (step none) (Distinct Room) initial
      (pushed objects handlers fakeSessionId stored invoked)) :
    ∃ newInvoked, Reachable (step none) (Distinct Room) initial
      (preempted (objects + 2) (handlers + 1) fakeSessionId stored newInvoked) := by
  have hreceived : Reachable (step none) (Distinct Room) initial
      { pushed objects handlers fakeSessionId stored invoked with
        arriving := [firstResponse]
        handling := [otherResponse objects handlers] } :=
    h.next (a := .receive 1 false) trivial rfl
  have hanswers : fakeSessionId.setWidth 32 <<< 16 ∉ (∅ : Answers).insert firstKey firstEntry := by
    rw [AList.mem_insert]
    rintro (heq | hmem)
    · exact hkey heq
    · exact AList.notMem_empty _ hmem
  have herrors : otherResponse objects handlers ∉
      (∅ : AList fun _ : MessageObject => FakeSessionId).insert firstResponse firstKey := by
    rw [AList.mem_insert]
    rintro (heq | hmem)
    · exact otherResponse_ne heq
    · exact AList.notMem_empty _ hmem
  have hhandled : handleProxyReceive (otherResponse objects handlers)
      { pushed objects handlers fakeSessionId stored invoked with arriving := [firstResponse] } =
      preempted (objects + 2) (handlers + 1) fakeSessionId stored _ :=
    handleProxyReceive_made_up rfl (AList.lookup_insert _)
      (show MessageType.error ≠ .notification by decide) (AList.notMem_empty _) (AList.lookup_insert _)
      (Tables.erase_insert _ herrors) (Tables.erase_insert _ hanswers)
  exact ⟨_, hreceived.next (a := .handleProxyReceive 0) trivial (congrArg some hhandled)⟩

end Overtaken

theorem nextFakeSessionId_ofNat {n : ℕ} (h : n + 1 < 2 ^ 16) :
    nextFakeSessionId (BitVec.ofNat 16 n) = BitVec.ofNat 16 (n + 1) := by
  have hsucc : BitVec.ofNat 16 n + 1 = BitVec.ofNat 16 (n + 1) := (BitVec.ofNat_add n 1).symm
  have hne : BitVec.ofNat 16 (n + 1) ≠ 0 := by
    intro hzero
    have htoNat := congrArg BitVec.toNat hzero
    rw [BitVec.toNat_ofNat, Nat.mod_eq_of_lt h] at htoNat
    exact absurd htoNat (Nat.succ_ne_zero n)
  unfold nextFakeSessionId
  rw [hsucc, if_neg hne]

theorem key_ne_firstKey {n : ℕ} (h1 : 1 < n) (h : n < 2 ^ 16) :
    (BitVec.ofNat 16 n).setWidth 32 <<< 16 ≠ firstKey := by
  intro heq
  have htoNat := congrArg BitVec.toNat heq
  rw [BitVec.toNat_shiftLeft, BitVec.toNat_setWidth, BitVec.toNat_ofNat, Nat.shiftLeft_eq,
    Nat.mod_eq_of_lt h, Nat.mod_eq_of_lt (h.trans (by decide))] at htoNat
  change n * 65536 % 4294967296 = 65536 at htoNat
  omega

/-- One call after the other ends while the thread of the first one waits. -/
theorem preempted_reachable {n : ℕ} (h1 : 1 ≤ n) (h : n < 2 ^ 16) :
    ∃ objects handlers stored invoked, 0 < handlers ∧
      Reachable (step none) (Distinct Room) initial
        (preempted objects handlers (BitVec.ofNat 16 n) stored invoked) := by
  induction n, h1 using Nat.le_induction with
  | base =>
    obtain ⟨stored, hfirst⟩ := first_preempted
    exact ⟨2, 1, stored, [], Nat.one_pos, hfirst⟩
  | succ n h1 ih =>
    obtain ⟨objects, handlers, stored, invoked, _, hreachable⟩ := ih (by omega)
    obtain ⟨newStored, hpushed⟩ := other_pushed hreachable
    rw [nextFakeSessionId_ofNat h] at hpushed
    obtain ⟨newInvoked, hanswered⟩ := other_answered (key_ne_firstKey (by omega) h) hpushed
    exact ⟨_, _, newStored, newInvoked, Nat.succ_pos handlers, hanswered⟩

/-- The next call is answered with the error response of the first one. -/
theorem made_up_session_crossed :
    ¬ ∀ (timeoutWarnThreshold : Option ℤ) (s : State),
      Reachable (step timeoutWarnThreshold) (Distinct fun s => synthetic s < 65535) initial s →
        Matched s := by
  intro hclaim
  obtain ⟨objects, handlers, stored, invoked, hpos, hreachable⟩ :=
    preempted_reachable (n := 65535) (by omega) (by omega)
  obtain ⟨newStored, hpushed⟩ := other_pushed hreachable
  have hround : nextFakeSessionId (BitVec.ofNat 16 65535) = 1 := by decide
  rw [hround] at hpushed
  have hreceived : Reachable (step none) (Distinct Room) initial
      { pushed objects handlers 1 newStored invoked with
        arriving := [otherResponse objects handlers]
        handling := [firstResponse] } :=
    hpushed.next (a := .receive 0 false) trivial rfl
  have hlookup : (((∅ : AList fun _ : MessageObject => FakeSessionId).insert firstResponse firstKey).insert
      (otherResponse objects handlers) firstKey).lookup firstResponse = some firstKey := by
    rw [AList.lookup_insert_ne otherResponse_ne.symm, AList.lookup_insert]
  have hhandled := handleProxyReceive_made_up
    (s := { pushed objects handlers 1 newStored invoked with arriving := [otherResponse objects handlers] })
    rfl hlookup (show MessageType.error ≠ .notification by decide) (AList.notMem_empty _)
    (AList.lookup_insert _) rfl rfl
  have hmatched := hclaim none _
    (hreceived.next (a := .handleProxyReceive 0) trivial (congrArg some hhandled))
  obtain ⟨_, _, ⟨hsession, _⟩ | ⟨hcall, _⟩⟩ :=
    hmatched.own _ (List.mem_append_right _ List.mem_cons_self)
  · exact hsession rfl
  · exact hpos.ne (Option.some.inj hcall)

end SomeIPRuntime.AsyncAnswers
