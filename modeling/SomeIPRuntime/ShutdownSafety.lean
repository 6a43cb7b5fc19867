import SomeIPRuntime.Shutdown

set_option autoImplicit false

namespace SomeIPRuntime.Shutdown
open StepSystems Factory

def threads (object : ℕ) : List ThreadId := [.cleanup object, .dispatch object]

def Phase.joins (object : ℕ) : Phase → List ThreadId
  | .cancelCleanup | .joinCleanup => threads object
  | .stop | .joinDispatch => [.dispatch object]
  | .release => []

def Call.stillJoins : Call → List ThreadId
  | .disconnecting connection phase => phase.joins connection.object
  | _ => []

def Call.joined : Call → Option ThreadId
  | .disconnecting connection .joinCleanup => some (.cleanup connection.object)
  | .disconnecting connection .joinDispatch => some (.dispatch connection.object)
  | _ => none

def Call.request : Call → Option Request
  | .waiting request => some request
  | _ => none

def Waiting (s : State) (t : ThreadId) : Prop := ∃ call ∈ s.calls.lookup t, call.request.isSome

instance (s : State) (t : ThreadId) : Decidable (Waiting s t) :=
  inferInstanceAs (Decidable (∃ _ ∈ _, _))

/-- A thread waits in `join` for another one, which waits for the mutex. -/
def Deadlocked (s : State) : Prop :=
  ∃ t other, other ≠ t ∧ (∃ call ∈ s.calls.lookup t, call.joined = some other) ∧ Waiting s other

def Unpinned (s : State) (t : ThreadId) : Prop := ∃ callback ∈ s.callbacks.lookup t, callback.pins = none

instance (s : State) (t : ThreadId) : Decidable (Unpinned s t) :=
  inferInstanceAs (Decidable (∃ _ ∈ _, _))

def Undisturbed (s : State) (t : ThreadId) : Prop :=
  Unpinned s t → ∀ x ∈ s.calls.entries, t ∉ x.2.stillJoins

instance (s : State) (t : ThreadId) : Decidable (Undisturbed s t) :=
  inferInstanceAs (Decidable (_ → _))

/-- A reference is counted as it should be. A connection is dropped only while no other thread of it waits
    in a callback that keeps nothing alive. -/
def Granted (s : State) (t : ThreadId) : Request → Prop
  | .getConnection connectionId application => Countable s.factory connectionId application
  | .incrementConnection connection => Alive s.factory connection ∧
      s.factory.activeConnections connection.object ≠ BitVec.allOnes 32
  | .decrementConnection connection =>
    ∀ found ∈ dropped connection s.factory, ∀ other ∈ threads found.object,
      other ≠ t → Unpinned s other → ¬ Waiting s other

instance (s : State) (t : ThreadId) : (request : Request) → Decidable (Granted s t request)
  | .getConnection _ _ => inferInstanceAs (Decidable (Countable _ _ _))
  | .incrementConnection _ => inferInstanceAs (Decidable (_ ∧ _))
  | .decrementConnection _ => inferInstanceAs (Decidable (∀ _ ∈ _, _))

def Safe (s : State) : Action → Prop
  | .getConnection t _ _ | .registerManagedService t _ | .use t .giveBack => Undisturbed s t
  | .unregisterStub t _ counted => counted = true ∧ Undisturbed s t
  | .dropProxy t proxy =>
    (∃ p ∈ s.proxies.lookup proxy, p.owned = 1) → ¬ Pinned s.callbacks proxy → Undisturbed s t
  | .acquire t => ∀ call ∈ s.calls.lookup t, ∀ request ∈ call.request, Granted s t request
  | _ => True

instance (s : State) : (a : Action) → Decidable (Safe s a)
  | .getConnection _ _ _ | .registerManagedService _ _ | .use _ .giveBack =>
    inferInstanceAs (Decidable (Undisturbed _ _))
  | .unregisterStub _ _ _ => inferInstanceAs (Decidable (_ ∧ Undisturbed _ _))
  | .dropProxy _ _ => inferInstanceAs (Decidable ((∃ _ ∈ _, _) → ¬ Pinned _ _ → Undisturbed _ _))
  | .acquire _ => inferInstanceAs (Decidable (∀ _ ∈ _, ∀ _ ∈ _, _))
  | .use _ (.proxy _) | .use _ .stub | .use _ .leak | .copyProxy _ | .disconnect _
  | .startCallback _ _ | .endCallback _ | .finish _ => .isTrue trivial

/-- A stub method creates a proxy while its last user unregisters the stub. -/
theorem stub_method_deadlocks :
    ¬ ∀ s, Reachable step StepSystems.Free initial s → ¬ Deadlocked s := by
  intro h
  refine h _ (.of_run [.getConnection (.application 0) "c" (some "c"), .acquire (.application 0),
    .use (.application 0) .stub, .startCallback (.dispatch 0) .stubMessage,
    .unregisterStub (.application 0) ⟨0, "c"⟩ true, .acquire (.application 0),
    .disconnect (.application 0), .finish (.cleanup 0), .disconnect (.application 0),
    .disconnect (.application 0), .getConnection (.dispatch 0) "other" (some "other")]
    (meets_free _ _) rfl) ⟨.application 0, .dispatch 0, by decide, ?_⟩
  decide +kernel

def Call.token : Call → Option Connection
  | .waiting (.decrementConnection connection) => some connection
  | .got connection => some connection
  | _ => none

def used (proxies : AList fun _ : ℕ => Proxy) : List Connection :=
  proxies.entries.map fun x => x.2.connection

def tokens (calls : AList fun _ : ThreadId => Call) : List Connection :=
  calls.entries.filterMap fun x => x.2.token

def holders (s : State) : List Connection := used s.proxies ++ (s.stubs ++ (s.leaked ++ tokens s.calls))

section References
variable {proxies : AList fun _ : ℕ => Proxy} {calls : AList fun _ : ThreadId => Call} {i : ℕ} {p q : Proxy}
  {t : ThreadId} {call : Call}

theorem used_insert (hnew : i ∉ proxies) (p : Proxy) :
    used (proxies.insert i p) = p.connection :: used proxies := by
  unfold used
  rw [AList.entries_insert_of_notMem hnew]
  rfl

theorem used_erase (h : proxies.lookup i = some p) :
    (used proxies).Perm (p.connection :: used (proxies.erase i)) :=
  (Tables.perm_cons_erase h).map _

theorem used_replace (h : proxies.lookup i = some p) (hsame : q.connection = p.connection) :
    (used (proxies.insert i q)).Perm (used proxies) := by
  unfold used
  rw [AList.entries_insert]
  refine List.Perm.trans ?_ (used_erase h).symm
  rw [← hsame]
  rfl

theorem mem_used (h : proxies.lookup i = some p) : p.connection ∈ used proxies :=
  List.mem_map_of_mem (Tables.mem_of_lookup h)

theorem mem_tokens {connection : Connection} (h : calls.lookup t = some call)
    (htoken : call.token = some connection) : connection ∈ tokens calls :=
  List.mem_filterMap.2 ⟨_, Tables.mem_of_lookup h, htoken⟩

theorem tokens_erase (h : calls.lookup t = some call) :
    (tokens calls).Perm (call.token.toList ++ tokens (calls.erase t)) := by
  refine ((Tables.perm_cons_erase h).filterMap _).trans ?_
  rw [List.filterMap_cons]
  cases call.token <;> rfl

theorem tokens_insert (t : ThreadId) (call : Call) (calls : AList fun _ : ThreadId => Call) :
    tokens (calls.insert t call) = call.token.toList ++ tokens (calls.erase t) := by
  unfold tokens
  rw [AList.entries_insert, List.filterMap_cons]
  cases call.token <;> rfl

theorem tokens_insert_absent (h : t ∉ calls) (call : Call) :
    tokens (calls.insert t call) = call.token.toList ++ tokens calls := by
  have herase : calls.erase t = calls := AList.ext (List.kerase_of_notMem_keys h)
  rw [tokens_insert, herase]

end References

def Call.Outside (object : ℕ) : Call → Prop
  | .waiting (.decrementConnection connection) => connection.object = object
  | .disconnecting _ _ => True
  | _ => False

def Call.leaves : Call → Option Connection
  | .disconnecting connection _ => some connection
  | _ => none

/-- The holders keep the connections, and a callback for a proxy keeps its proxy. Threads that are still to
    be joined do not wait. -/
structure Sound (inHand : List Connection) (s : State) : Prop where
  held : Held s.factory (inHand ++ holders s)
  pinned : ∀ t callback i, s.callbacks.lookup t = some callback → callback.pins = some i →
    ∃ p, s.proxies.lookup i = some p ∧ t ∈ threads p.connection.object
  outside : ∀ t call object, s.calls.lookup t = some call → t ∈ threads object → t ∉ s.callbacks →
    call.Outside object
  gone : ∀ t call connection, s.calls.lookup t = some call → call.leaves = some connection →
    connection.object ∈ s.factory.disconnected
  undisturbed : ∀ t call other, s.calls.lookup t = some call → other ∈ call.stillJoins → other ≠ t →
    ¬ Waiting s other

theorem joins_threads {object : ℕ} {phase : Phase} {t : ThreadId} (h : t ∈ phase.joins object) :
    t ∈ threads object := by
  cases phase with
  | cancelCleanup => exact h
  | joinCleanup => exact h
  | stop => exact List.mem_cons_of_mem _ h
  | joinDispatch => exact List.mem_cons_of_mem _ h
  | release => cases h

theorem leaves_of_stillJoins {call : Call} {t : ThreadId} (h : t ∈ call.stillJoins) :
    ∃ connection, call.leaves = some connection ∧ t ∈ threads connection.object := by
  cases call with
  | waiting request => cases h
  | got connection => cases h
  | disconnecting connection phase => exact ⟨connection, rfl, joins_threads h⟩

theorem threads_injective {a b : ℕ} {t : ThreadId} (ha : t ∈ threads a) (hb : t ∈ threads b) : a = b := by
  cases t with
  | application number => simp [threads] at ha
  | cleanup object =>
    simp only [threads, List.mem_cons, ThreadId.cleanup.injEq, reduceCtorEq, List.not_mem_nil,
      or_false] at ha hb
    exact ha.symm.trans hb
  | dispatch object =>
    simp only [threads, List.mem_cons, ThreadId.dispatch.injEq, reduceCtorEq, List.not_mem_nil,
      or_false, false_or] at ha hb
    exact ha.symm.trans hb

section Facts
variable {inHand : List Connection} {s : State} {t other : ThreadId} {object : ℕ}

/-- A thread of a connection that is disconnected runs no callback for a proxy. -/
theorem Sound.unpinned (h : Sound inHand s) (hgone : object ∈ s.factory.disconnected)
    (ht : t ∈ threads object) (hmem : t ∈ s.callbacks) : Unpinned s t := by
  obtain ⟨callback, hlookup⟩ := Option.isSome_iff_exists.1 (AList.lookup_isSome.2 hmem)
  refine ⟨callback, hlookup, ?_⟩
  cases hpins : callback.pins with
  | none => rfl
  | some i =>
    obtain ⟨p, hp, hthread⟩ := h.pinned t callback i hlookup hpins
    have hholder : p.connection ∈ inHand ++ holders s :=
      List.mem_append_right _ (List.mem_append_left _ (mem_used hp))
    rw [threads_injective ht hthread] at hgone
    exact absurd hgone (h.held.not_disconnected hholder)

/-- Such a thread waits only in a callback that keeps nothing alive. -/
theorem Sound.quiet (h : Sound inHand s) (hgone : object ∈ s.factory.disconnected)
    (ht : t ∈ threads object) (hwaiting : Waiting s t) : Unpinned s t := by
  by_cases hmem : t ∈ s.callbacks
  · exact h.unpinned hgone ht hmem
  · obtain ⟨call, hcall, hrequest⟩ := hwaiting
    have houtside := h.outside t call object hcall ht hmem
    unfold Call.Outside at houtside
    split at houtside
    next connection =>
      have hholder : connection ∈ inHand ++ holders s := by
        refine List.mem_append_right _ (List.mem_append_right _ (List.mem_append_right _ ?_))
        exact List.mem_append_right _ (mem_tokens hcall rfl)
      rw [← houtside] at hgone
      exact absurd hgone (h.held.not_disconnected hholder)
    next => cases hrequest
    next => exact houtside.elim

/-- A thread that runs code of the application may begin to wait. -/
theorem Sound.aside (h : Sound inHand s) (hinside : ∀ object, t ∈ threads object → t ∈ s.callbacks)
    (hundisturbed : Undisturbed s t) {call : Call} (hcall : s.calls.lookup other = some call) :
    t ∉ call.stillJoins := by
  intro hjoins
  obtain ⟨connection, hleaves, ht⟩ := leaves_of_stillJoins hjoins
  have hgone := h.gone other call connection hcall hleaves
  exact hundisturbed (h.unpinned hgone ht (hinside _ ht)) _ (Tables.mem_of_lookup hcall) hjoins

end Facts

section Hands
variable {inHand : List Connection} {s : State} {t : ThreadId} {connection : Connection} {call : Call}
  {i : ℕ} {p q : Proxy}

theorem sound_initial : Sound [] initial where
  held := held_initial
  pinned _ _ _ h := by cases h
  outside _ _ _ h := by cases h
  gone _ _ _ h := by cases h
  undisturbed _ _ _ h := by cases h

/-- Nothing depends on the managed stubs that are not counted, nor on how far the threads are. -/
theorem Sound.frame (h : Sound inHand s) (uncounted : List Connection) (cancelled stopped : Finset ℕ)
    (ended : Finset ThreadId) :
    Sound inHand { s with
      uncounted := uncounted, cancelled := cancelled, stopped := stopped, ended := ended } :=
  ⟨h.held, h.pinned, h.outside, h.gone, h.undisturbed⟩

theorem Sound.takeCall (h : Sound inHand s) (hcall : s.calls.lookup t = some call) :
    Sound (call.token.toList ++ inHand) (leave t s) where
  held := by
    refine h.held.perm (List.perm_iff_count.2 fun a => ?_)
    have htokens := (tokens_erase hcall).count_eq a
    simp only [holders, leave, List.count_append] at htokens ⊢
    omega
  pinned := h.pinned
  outside t' call' object hlookup := h.outside t' call' object (Tables.lookup_of_erase hlookup).2
  gone t' call' connection hlookup := h.gone t' call' connection (Tables.lookup_of_erase hlookup).2
  undisturbed t' call' other hlookup hjoins hne := by
    rintro ⟨waiting, hwaiting, hrequest⟩
    exact h.undisturbed t' call' other (Tables.lookup_of_erase hlookup).2 hjoins hne
      ⟨waiting, (Tables.lookup_of_erase hwaiting).2, hrequest⟩

theorem Sound.putCall (h : Sound (call.token.toList ++ inHand) s) (hfree : t ∉ s.calls)
    (houtside : ∀ object, t ∈ threads object → t ∉ s.callbacks → call.Outside object)
    (hgone : ∀ connection, call.leaves = some connection → connection.object ∈ s.factory.disconnected)
    (hquiet : ∀ other, other ∈ call.stillJoins → other ≠ t → ¬ Waiting s other)
    (haside : call.request.isSome → ∀ other call', s.calls.lookup other = some call' →
      t ∉ call'.stillJoins) :
    Sound inHand { s with calls := s.calls.insert t call } where
  held := by
    refine h.held.perm (List.perm_iff_count.2 fun a => ?_)
    simp only [holders, List.count_append, tokens_insert_absent hfree]
    omega
  pinned := h.pinned
  outside t' call' object hlookup ht hcallbacks := by
    rcases Tables.lookup_of_insert hlookup with ⟨rfl, rfl⟩ | ⟨_, hold⟩
    · exact houtside object ht hcallbacks
    · exact h.outside t' call' object hold ht hcallbacks
  gone t' call' connection hlookup hleaves := by
    rcases Tables.lookup_of_insert hlookup with ⟨_, rfl⟩ | ⟨_, hold⟩
    · exact hgone connection hleaves
    · exact h.gone t' call' connection hold hleaves
  undisturbed t' call' other hlookup hjoins hne := by
    rintro ⟨waiting, hwaiting, hrequest⟩
    rcases Tables.lookup_of_insert hlookup with ⟨rfl, rfl⟩ | ⟨_, hold⟩ <;>
      rcases Tables.lookup_of_insert hwaiting with ⟨heq, hsame⟩ | ⟨_, hwaited⟩
    · exact hne heq
    · exact hquiet other hjoins hne ⟨waiting, hwaited, hrequest⟩
    · rw [hsame] at hrequest
      rw [heq] at hjoins
      exact haside hrequest t' call' hold hjoins
    · exact h.undisturbed t' call' other hold hjoins hne ⟨waiting, hwaited, hrequest⟩

theorem Sound.putStaying (h : Sound (call.token.toList ++ inHand) s) (hfree : t ∉ s.calls)
    (hstays : call.leaves = none)
    (houtside : ∀ object, t ∈ threads object → t ∉ s.callbacks → call.Outside object)
    (haside : call.request.isSome → ∀ other call', s.calls.lookup other = some call' →
      t ∉ call'.stillJoins) :
    Sound inHand { s with calls := s.calls.insert t call } := by
  refine h.putCall hfree houtside ?_ ?_ haside
  · intro connection hleaves
    cases hstays.symm.trans hleaves
  · intro other hjoins
    rcases leaves_of_stillJoins hjoins with ⟨connection, hleaves, _⟩
    cases hstays.symm.trans hleaves

theorem Sound.putStub (h : Sound (connection :: inHand) s) :
    Sound inHand { s with stubs := connection :: s.stubs } where
  held := by
    refine h.held.perm (List.perm_iff_count.2 fun a => ?_)
    simp only [holders, List.count_append, List.count_cons]
    omega
  pinned := h.pinned
  outside := h.outside
  gone := h.gone
  undisturbed := h.undisturbed

theorem Sound.takeStub (h : Sound inHand s) (hmem : connection ∈ s.stubs) :
    Sound (connection :: inHand) { s with stubs := s.stubs.erase connection } where
  held := by
    refine h.held.perm (List.perm_iff_count.2 fun a => ?_)
    have hstubs := (List.perm_cons_erase hmem).count_eq a
    simp only [holders, List.count_append, List.count_cons] at hstubs ⊢
    omega
  pinned := h.pinned
  outside := h.outside
  gone := h.gone
  undisturbed := h.undisturbed

theorem Sound.putLeak (h : Sound (connection :: inHand) s) :
    Sound inHand { s with leaked := connection :: s.leaked } where
  held := by
    refine h.held.perm (List.perm_iff_count.2 fun a => ?_)
    simp only [holders, List.count_append, List.count_cons]
    omega
  pinned := h.pinned
  outside := h.outside
  gone := h.gone
  undisturbed := h.undisturbed

theorem Sound.putProxy (h : Sound (p.connection :: inHand) s) (hnew : i ∉ s.proxies) :
    Sound inHand { s with proxies := s.proxies.insert i p } where
  held := by
    refine h.held.perm (List.perm_iff_count.2 fun a => ?_)
    simp only [holders, List.count_append, List.count_cons, used_insert hnew]
    omega
  pinned t' callback j hlookup hpins := by
    obtain ⟨old, hold, hthread⟩ := h.pinned t' callback j hlookup hpins
    have hne : j ≠ i := by
      rintro rfl
      exact hnew (AList.lookup_isSome.1 (Option.isSome_of_eq_some hold))
    exact ⟨old, (AList.lookup_insert_ne hne).trans hold, hthread⟩
  outside := h.outside
  gone := h.gone
  undisturbed := h.undisturbed

/-- The application has more or fewer references to a proxy. -/
theorem Sound.replaceProxy (h : Sound inHand s) (hp : s.proxies.lookup i = some p)
    (hsame : q.connection = p.connection) :
    Sound inHand { s with proxies := s.proxies.insert i q } where
  held := by
    refine h.held.perm (List.perm_iff_count.2 fun a => ?_)
    have hused := (used_replace hp hsame).count_eq a
    simp only [holders, List.count_append]
    omega
  pinned t' callback j hlookup hpins := by
    obtain ⟨old, hold, hthread⟩ := h.pinned t' callback j hlookup hpins
    by_cases heq : j = i
    · rw [heq] at hold ⊢
      cases hp.symm.trans hold
      rw [← hsame] at hthread
      exact ⟨q, AList.lookup_insert _, hthread⟩
    · exact ⟨old, (AList.lookup_insert_ne heq).trans hold, hthread⟩
  outside := h.outside
  gone := h.gone
  undisturbed := h.undisturbed

theorem Sound.takeProxy (h : Sound inHand s) (hp : s.proxies.lookup i = some p)
    (hpinned : ¬ Pinned s.callbacks i) :
    Sound (p.connection :: inHand) { s with proxies := s.proxies.erase i } where
  held := by
    refine h.held.perm (List.perm_iff_count.2 fun a => ?_)
    have hused := (used_erase hp).count_eq a
    simp only [holders, List.count_append, List.count_cons] at hused ⊢
    omega
  pinned t' callback j hlookup hpins := by
    obtain ⟨old, hold, hthread⟩ := h.pinned t' callback j hlookup hpins
    have hne : j ≠ i := by
      rintro rfl
      exact hpinned ⟨_, Tables.mem_of_lookup hlookup, hpins⟩
    exact ⟨old, (AList.lookup_erase_ne hne).trans hold, hthread⟩
  outside := h.outside
  gone := h.gone
  undisturbed := h.undisturbed

theorem Sound.factory (h : Sound inHand s) {factory : Factory.State} {others : List Connection}
    (hheld : Held factory (others ++ holders s))
    (hdisconnected : s.factory.disconnected ⊆ factory.disconnected) :
    Sound others { s with factory := factory } where
  held := hheld
  pinned := h.pinned
  outside := h.outside
  gone t' call' connection hlookup hleaves := hdisconnected (h.gone t' call' connection hlookup hleaves)
  undisturbed := h.undisturbed

end Hands

section Disconnected
variable {connection found : Connection} {s t : Factory.State}

theorem incrementConnection_disconnected (connection : Connection) (s : Factory.State) :
    (Factory.incrementConnection connection s).disconnected = s.disconnected := by
  unfold Factory.incrementConnection
  split <;> rfl

theorem getConnection_disconnected {connectionId : ConnectionId} {application : Option ConnectionId}
    (h : Factory.getConnection connectionId application s = some (connection, t)) :
    t.disconnected = s.disconnected := by
  unfold Factory.getConnection at h
  split at h
  next =>
    cases h
    exact incrementConnection_disconnected _ _
  next =>
    obtain ⟨name, _, heq⟩ := Option.map_eq_some_iff.1 h
    cases heq
    exact incrementConnection_disconnected _ _

theorem decrementConnection_disconnected (connection : Connection) (s : Factory.State) :
    s.disconnected ⊆ (Factory.decrementConnection connection s).disconnected := by
  unfold Factory.decrementConnection
  split
  next =>
    dsimp only
    split
    next => exact Finset.subset_insert _ _
    next => exact Finset.Subset.refl _
  next => exact Finset.Subset.refl _

theorem dropped_disconnected (h : dropped connection s = some found) :
    found.object ∈ (Factory.decrementConnection connection s).disconnected := by
  unfold dropped at h
  unfold Factory.decrementConnection
  cases hlookup : s.connections.lookup connection.connectionId with
  | none =>
    rw [hlookup] at h
    cases h
  | some other =>
    rw [hlookup] at h
    dsimp only at h ⊢
    split_ifs at h with hzero
    cases h
    rw [if_pos hzero]
    exact Finset.mem_insert_self _ _

end Disconnected

section Steps
variable {inHand : List Connection} {s u : State} {t : ThreadId} {connection : Connection}

theorem Free.inside (h : Free s t) (object : ℕ) (ht : t ∈ threads object) : t ∈ s.callbacks := by
  cases t with
  | application number => simp [threads] at ht
  | cleanup object => exact h.2
  | dispatch object => exact h.2

theorem Sound.enter {request : Request}
    (h : Sound ((Call.waiting request).token.toList ++ inHand) s) (hfree : Free s t)
    (hundisturbed : Undisturbed s t) : Sound inHand (enter t request s) := by
  refine h.putStaying hfree.1 rfl (fun object ht hmem => absurd (hfree.inside object ht) hmem) ?_
  intro _ other call hcall
  exact h.aside hfree.inside hundisturbed hcall

theorem notMem_leave (t : ThreadId) (s : State) : t ∉ (leave t s).calls := by
  change t ∉ s.calls.erase t
  rw [AList.mem_erase]
  exact fun h => h.1 rfl

theorem Sound.proceed {phase next : Phase} (h : Sound [] s)
    (hcall : s.calls.lookup t = some (.disconnecting connection phase))
    (hjoins : next.joins connection.object ⊆ phase.joins connection.object) :
    Sound [] { s with calls := s.calls.insert t (.disconnecting connection next) } := by
  have hleft : Sound [] (leave t s) := h.takeCall hcall
  rw [← Tables.insert_erase]
  refine hleft.putCall (notMem_leave t s) (fun _ _ _ => trivial) ?_ ?_ ?_
  · rintro other hleaves
    cases hleaves
    exact h.gone t _ connection hcall rfl
  · rintro other hother hne ⟨call, hlookup, hrequest⟩
    exact h.undisturbed t _ other hcall (hjoins hother) hne
      ⟨call, (Tables.lookup_of_erase hlookup).2, hrequest⟩
  · intro hrequest
    cases hrequest

theorem Sound.disconnect {phase : Phase} (h : Sound [] s)
    (hcall : s.calls.lookup t = some (.disconnecting connection phase))
    (hstep : disconnect t connection phase s = some u) : Sound [] u := by
  cases phase with
  | cancelCleanup =>
    cases hstep
    have hnext : Sound [] { s with calls := s.calls.insert t (.disconnecting connection .joinCleanup) } :=
      h.proceed hcall (List.Subset.refl _)
    exact hnext.frame s.uncounted (insert connection.object s.cancelled) s.stopped s.ended
  | joinCleanup =>
    unfold Shutdown.disconnect at hstep
    dsimp only at hstep
    split_ifs at hstep
    cases hstep
    exact h.proceed hcall (List.subset_cons_self _ _)
  | stop =>
    cases hstep
    have hnext : Sound [] { s with calls := s.calls.insert t (.disconnecting connection .joinDispatch) } :=
      h.proceed hcall (List.Subset.refl _)
    exact hnext.frame s.uncounted s.cancelled (insert connection.object s.stopped) s.ended
  | joinDispatch =>
    unfold Shutdown.disconnect at hstep
    dsimp only at hstep
    split_ifs at hstep
    cases hstep
    exact h.proceed hcall (List.nil_subset _)
  | release =>
    cases hstep
    exact h.takeCall hcall

theorem Sound.acquireNew {connectionId : ConnectionId} {application : Option ConnectionId} (h : Sound [] s)
    (hcall : s.calls.lookup t = some (.waiting (.getConnection connectionId application)))
    (hgranted : Countable s.factory connectionId application) :
    Sound [] (acquire t (.getConnection connectionId application) s) := by
  have hleft : Sound [] (leave t s) := h.takeCall hcall
  unfold Shutdown.acquire
  dsimp only
  cases hget : Factory.getConnection connectionId application s.factory with
  | none => exact hleft
  | some got =>
    rcases got with ⟨connection, factory⟩
    have hheld : Held factory (connection :: holders (leave t s)) :=
      hleft.held.getConnection hgranted hget
    have hgot : Sound [connection] { leave t s with factory := factory } :=
      hleft.factory hheld (getConnection_disconnected hget).symm.subset
    dsimp only
    rw [← Tables.insert_erase]
    refine Sound.putStaying (s := { leave t s with factory := factory }) hgot (notMem_leave t s) rfl ?_ ?_
    · exact fun object ht hmem => (h.outside t _ object hcall ht hmem).elim
    · intro hrequest
      cases hrequest

theorem Sound.acquireMore (h : Sound [] s)
    (hcall : s.calls.lookup t = some (.waiting (.incrementConnection connection)))
    (halive : Alive s.factory connection)
    (hmax : s.factory.activeConnections connection.object ≠ BitVec.allOnes 32) :
    Sound [] (acquire t (.incrementConnection connection) s) := by
  have hleft : Sound [] (leave t s) := h.takeCall hcall
  have hheld : Held (Factory.incrementConnection connection s.factory)
      (connection :: holders (leave t s)) := hleft.held.increment halive hmax
  have hcounted : Sound [connection]
      { leave t s with factory := Factory.incrementConnection connection s.factory } :=
    hleft.factory hheld (incrementConnection_disconnected _ _).symm.subset
  exact hcounted.putStub.frame (s.uncounted.erase connection) _ _ _

theorem Sound.acquireLess (h : Sound [] s)
    (hcall : s.calls.lookup t = some (.waiting (.decrementConnection connection)))
    (hgranted : Granted s t (.decrementConnection connection)) :
    Sound [] (acquire t (.decrementConnection connection) s) := by
  have hleft : Sound [connection] (leave t s) := h.takeCall hcall
  have hdecremented : Sound []
      { leave t s with factory := Factory.decrementConnection connection s.factory } :=
    hleft.factory (Held.decrement hleft.held) (decrementConnection_disconnected _ _)
  unfold Shutdown.acquire
  dsimp only
  cases hdropped : dropped connection s.factory with
  | none => exact hdecremented
  | some found =>
    have hgone := dropped_disconnected hdropped
    dsimp only
    rw [← Tables.insert_erase]
    refine Sound.putCall (s := { leave t s with factory := Factory.decrementConnection connection s.factory })
      hdecremented (notMem_leave t s) (fun _ _ _ => trivial) ?_ ?_ ?_
    · rintro other hleaves
      cases hleaves
      exact hgone
    · intro other hjoins hne hwaiting
      have hunpinned : Unpinned s other := hdecremented.quiet hgone hjoins hwaiting
      rcases hwaiting with ⟨call, hlookup, hrequest⟩
      exact hgranted found hdropped other hjoins hne hunpinned
        ⟨call, (Tables.lookup_of_erase hlookup).2, hrequest⟩
    · intro hrequest
      cases hrequest

theorem Sound.acquire {request : Request} (h : Sound [] s)
    (hcall : s.calls.lookup t = some (.waiting request)) (hgranted : Granted s t request) :
    Sound [] (acquire t request s) := by
  cases request with
  | getConnection connectionId application => exact h.acquireNew hcall hgranted
  | incrementConnection connection => exact h.acquireMore hcall hgranted.1 hgranted.2
  | decrementConnection connection => exact h.acquireLess hcall hgranted

theorem Sound.use {outcome : Outcome} (h : Sound [] s) (hcall : s.calls.lookup t = some (.got connection))
    (hsafe : Safe s (.use t outcome)) (hstep : use t connection outcome s = some u) : Sound [] u := by
  have hleft : Sound [connection] (leave t s) := h.takeCall hcall
  cases outcome with
  | proxy proxy =>
    unfold Shutdown.use at hstep
    dsimp only at hstep
    split_ifs at hstep with hmem
    cases hstep
    exact Sound.putProxy (p := ⟨connection, 1⟩) hleft hmem
  | stub =>
    cases hstep
    exact hleft.putStub
  | leak =>
    cases hstep
    exact hleft.putLeak
  | giveBack =>
    cases hstep
    have hinside : ∀ object, t ∈ threads object → t ∈ s.callbacks := by
      intro object ht
      by_contra hmem
      exact h.outside t _ object hcall ht hmem
    unfold Shutdown.enter
    rw [← Tables.insert_erase]
    refine hleft.putStaying (notMem_leave t s) rfl (fun object ht hmem => absurd (hinside object ht) hmem) ?_
    intro _ other call hlookup
    exact h.aside hinside hsafe (Tables.lookup_of_erase hlookup).2

theorem Sound.dropProxy {proxy : ℕ} {p : Proxy} (h : Sound [] s) (hp : s.proxies.lookup proxy = some p)
    (hfree : Free s t) (hsafe : Safe s (.dropProxy t proxy)) : Sound [] (dropProxy t proxy p s) := by
  unfold Shutdown.dropProxy
  split_ifs with hlast
  · exact (h.takeProxy hp hlast.2).enter hfree (hsafe ⟨p, hp, hlast.1⟩ hlast.2)
  · exact h.replaceProxy hp rfl

theorem CanStart.pinned {callback : Callback} {i : ℕ} (h : CanStart s t callback)
    (hpins : callback.pins = some i) :
    ∃ p, s.proxies.lookup i = some p ∧ t ∈ threads p.connection.object := by
  cases callback with
  | proxy kind proxy =>
    cases hpins
    cases t with
    | application number => exact h.elim
    | cleanup object =>
      cases kind with
      | messageReply =>
        obtain ⟨p, hp, rfl⟩ := h
        exact ⟨p, hp, List.mem_cons_self⟩
      | eventMessage => exact h.elim
      | availability => exact h.elim
      | subscriptionError => exact h.elim
    | dispatch object =>
      obtain ⟨p, hp, rfl⟩ := h
      exact ⟨p, hp, List.mem_cons_of_mem _ List.mem_cons_self⟩
  | stubMessage => cases hpins
  | subscriptionHandler => cases hpins
  | replyHandlerDestruction => cases hpins

theorem Sound.startCallback {callback : Callback} (h : Sound [] s)
    (hstart : CanStart s t callback) :
    Sound [] { s with callbacks := s.callbacks.insert t callback } where
  held := h.held
  pinned t' callback' i hlookup hpins := by
    rcases Tables.lookup_of_insert hlookup with ⟨rfl, rfl⟩ | ⟨_, hold⟩
    · exact hstart.pinned hpins
    · exact h.pinned t' callback' i hold hpins
  outside t' call object hlookup ht hmem := by
    refine h.outside t' call object hlookup ht fun hold => hmem ?_
    exact AList.mem_insert _ |>.2 (.inr hold)
  gone := h.gone
  undisturbed := h.undisturbed

theorem Sound.eraseCallback (h : Sound [] s) (hcalls : t ∉ s.calls) :
    Sound [] { s with callbacks := s.callbacks.erase t } where
  held := h.held
  pinned t' callback i hlookup := h.pinned t' callback i (Tables.lookup_of_erase hlookup).2
  outside t' call object hlookup ht hmem := by
    refine h.outside t' call object hlookup ht fun hold => hmem ?_
    refine AList.mem_erase.2 ⟨?_, hold⟩
    rintro rfl
    exact hcalls (AList.lookup_isSome.1 (Option.isSome_of_eq_some hlookup))
  gone := h.gone
  undisturbed := h.undisturbed

/-- A thread whose callback has kept a proxy gives the reference to its own connection back. -/
theorem Sound.endCallback {callback : Callback} (h : Sound [] s) (hcalls : t ∉ s.calls)
    (hcallback : s.callbacks.lookup t = some callback) : Sound [] (endCallback t callback s) := by
  have herased := h.eraseCallback hcalls
  unfold Shutdown.endCallback
  dsimp only
  cases hpins : callback.pins with
  | none => exact herased
  | some i =>
    obtain ⟨p, hp, hthread⟩ := h.pinned t callback i hcallback hpins
    dsimp only
    rw [hp]
    dsimp only
    split_ifs with hlast
    · refine (herased.takeProxy hp hlast.2).putStaying hcalls rfl ?_ ?_
      · exact fun object ht _ => threads_injective hthread ht
      · intro _ other call hlookup hjoins
        rcases leaves_of_stillJoins hjoins with ⟨left, hleaves, hleft⟩
        have hgone := h.gone other call left hlookup hleaves
        rw [threads_injective hleft hthread] at hgone
        exact h.held.not_disconnected (List.mem_append_right _ (List.mem_append_left _ (mem_used hp))) hgone
    · exact herased

theorem Sound.next {a : Action} (h : Sound [] s) (hsafe : Safe s a) (hstep : step s a = some u) :
    Sound [] u := by
  cases a with
  | getConnection t connectionId application =>
    dsimp only [step] at hstep
    split_ifs at hstep with hfree
    cases hstep
    exact h.enter hfree hsafe
  | registerManagedService t connection =>
    dsimp only [step] at hstep
    split_ifs at hstep with hfree
    cases hstep
    exact (h.frame (connection :: s.uncounted) s.cancelled s.stopped s.ended).enter hfree hsafe
  | unregisterStub t connection counted =>
    cases counted with
    | true =>
      dsimp only [step] at hstep
      split_ifs at hstep with hfree
      cases hstep
      exact (h.takeStub hfree.2).enter hfree.1 hsafe.2
    | false => cases hsafe.1
  | copyProxy proxy =>
    obtain ⟨p, hp, rfl⟩ := Option.map_eq_some_iff.1 hstep
    exact h.replaceProxy hp rfl
  | dropProxy t proxy =>
    obtain ⟨p, hp, hdrop⟩ := Option.bind_eq_some_iff.1 hstep
    split_ifs at hdrop with hfree
    cases hdrop
    exact h.dropProxy hp hfree.1 hsafe
  | acquire t =>
    dsimp only [step] at hstep
    split at hstep
    next request hcall =>
      split_ifs at hstep
      cases hstep
      exact h.acquire hcall (hsafe _ hcall request rfl)
    next => cases hstep
  | use t outcome =>
    dsimp only [step] at hstep
    split at hstep
    next connection hcall => exact h.use hcall hsafe hstep
    next => cases hstep
  | disconnect t =>
    dsimp only [step] at hstep
    split at hstep
    next connection phase hcall => exact h.disconnect hcall hstep
    next => cases hstep
  | startCallback t callback =>
    dsimp only [step] at hstep
    split_ifs at hstep with hstart
    cases hstep
    exact h.startCallback hstart.2.2.2
  | endCallback t =>
    dsimp only [step] at hstep
    split_ifs at hstep with hcalls
    obtain ⟨callback, hcallback, rfl⟩ := Option.map_eq_some_iff.1 hstep
    exact h.endCallback hcalls hcallback
  | finish t =>
    dsimp only [step] at hstep
    split_ifs at hstep
    cases hstep
    exact h.frame s.uncounted s.cancelled s.stopped (insert t s.ended)

theorem Sound.not_deadlocked (h : Sound inHand s) : ¬ Deadlocked s := by
  rintro ⟨t, other, hne, ⟨call, hcall, hjoined⟩, hwaiting⟩
  refine h.undisturbed t call other hcall ?_ hne hwaiting
  unfold Call.joined at hjoined
  split at hjoined
  next =>
    cases hjoined
    exact List.mem_cons_self
  next =>
    cases hjoined
    exact List.mem_cons_self
  next => cases hjoined

theorem joined_not_waiting (h : Reachable step Safe initial s) : ¬ Deadlocked s :=
  (h.invariant sound_initial fun _ _ _ => Sound.next).not_deadlocked

end Steps

/-- The callback that has kept a proxy destroys it. The dispatch thread then joins the cleanup thread, while the
    application waits. -/
def keptProxy : List Action :=
  [.getConnection (.application 0) "c" (some "c"), .acquire (.application 0),
    .use (.application 0) (.proxy 0), .startCallback (.dispatch 0) (.proxy .eventMessage 0),
    .dropProxy (.application 0) 0, .endCallback (.dispatch 0), .acquire (.dispatch 0),
    .disconnect (.dispatch 0), .getConnection (.application 0) "c" (some "c")]

theorem joined_not_waiting_keptProxy :
    ∃ s, run step initial keptProxy = some s ∧ Waiting s (.application 0) ∧ ¬ Deadlocked s :=
  ⟨_, rfl, by decide +kernel, joined_not_waiting (.of_run keptProxy (by decide +kernel) rfl)⟩

end SomeIPRuntime.Shutdown
