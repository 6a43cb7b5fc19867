import SomeIPRuntime.Availability
import SomeIPRuntime.Broadcasts
import SomeIPRuntime.InstanceAvailability
import SomeIPRuntime.ProxyStatus
import SomeIPRuntime.Tables

set_option autoImplicit false

/-!
# Availability from vsomeip to the proxies

vsomeip reports to the connection which instances are available. `handleAvailabilityChange` copies the
handlers of the instance and those of all instances under `availabilityMutex_` and calls them without it,
while proxies are made and go.
-/
namespace SomeIPRuntime.ProxyAvailability
open StepSystems Broadcasts
open Availability (Key HandlerId)
open InstanceAvailability (anyInstance)
open ProxyStatus (AvailabilityStatus Phase)

structure Report where
  service : ServiceId
  instance_ : InstanceId
  isAvailable : Bool
  deriving DecidableEq

def Concerns (key : Key) (report : Report) : Prop :=
  key.1 = report.service ∧ (key.2 = report.instance_ ∨ key.2 = anyInstance)

instance (key : Key) : DecidablePred (Concerns key) := fun report =>
  inferInstanceAs (Decidable (key.1 = report.service ∧ (key.2 = report.instance_ ∨ key.2 = anyInstance)))

/-- `isAvailable` is what vsomeip answers. The queue of the channel has the reports that the main loop is
    to dispatch, and `expired` are the proxies that can no longer be locked. -/
structure State (π : Type) where
  isRegistered : Bool
  isAvailable : Key → Bool
  availabilityCalled : Finset Key
  handlers : Availability.State π
  expired : Finset π
  init : π → Phase
  availabilityStatus : π → AvailabilityStatus
  channel : Channel Key π Report

def initial {π : Type} (isRegistered : Bool) (isAvailable : Key → Bool) : State π :=
  ⟨isRegistered, isAvailable, ∅, Availability.initial, ∅, fun _ => .registerAvailabilityHandler,
    fun _ => .unknown, Channel.initial⟩

inductive Action (π : Type)
  | init (proxy : π)
  | unregisterAvailabilityHandler (proxy : π) (handlerId : HandlerId)
  | call (key : Key) (op : Mirroring.Op MajorVersion)
  | expire (proxy : π)
  | onAvailabilityChange (report : Report) (isMainLoop : Bool)
  | processAvblQueueEntry
  | callHandler (i : ℕ)
  | onConnectionEvent (isRegistered : Bool)
  | change (key : Key) (isAvailable : Bool)

def handlersOf {π : Type} (handlers : Availability.State π) (key : Key) : List π :=
  (handlers.availabilityHandlers.lookup key).elim [] fun table => table.entries.map Sigma.snd

def handlersFor {π : Type} (handlers : Availability.State π) (report : Report) : List π :=
  handlersOf handlers (report.service, report.instance_) ++ handlersOf handlers (report.service, anyInstance)

def HasNewId {π : Type} (handlers : Availability.State π) (address : Address) : Prop :=
  ∀ table ∈ handlers.availabilityHandlers.lookup address.key, handlers.itsHandlerId + 1 ∉ table

def Owns {π : Type} (handlers : Availability.State π) (address : Address) (proxy : π) (handlerId : HandlerId) :
    Prop :=
  ∀ table ∈ handlers.availabilityHandlers.lookup address.key, ∀ other ∈ table.lookup handlerId, other = proxy

instance {π : Type} (handlers : Availability.State π) (address : Address) : Decidable (HasNewId handlers address) := by
  unfold HasNewId
  infer_instance

instance {π : Type} [DecidableEq π] (handlers : Availability.State π) (address : Address) (proxy : π)
    (handlerId : HandlerId) : Decidable (Owns handlers address proxy handlerId) := by
  unfold Owns
  infer_instance

section Steps
variable {π : Type} [DecidableEq π] (alias_ : π → Address)

def State.proxy (s : State π) (proxy : π) : ProxyStatus.State where
  isRegistered := s.isRegistered
  availabilityCalled := (alias_ proxy).key ∈ s.availabilityCalled
  handler := proxy ∈ handlersOf s.handlers (alias_ proxy).key
  isAvailable := s.isAvailable (alias_ proxy).key
  init := s.init proxy
  availabilityStatus := s.availabilityStatus proxy
  pending := (forSubscriber Concerns (alias_ proxy).key proxy s.channel.passes.flatten).map Report.isAvailable
  delivered := (forSubscriber Concerns (alias_ proxy).key proxy s.channel.told).map Report.isAvailable ++
    (forSubscriber Concerns (alias_ proxy).key proxy s.channel.passes.flatten).map Report.isAvailable

/-- The next step of `Proxy::init`. -/
def init (proxy : π) (s : State π) : Option (State π) :=
  (ProxyStatus.init (s.proxy alias_ proxy)).map fun next =>
    let isNew := s.init proxy = .registerAvailabilityHandler
    { s with
      handlers :=
        if isNew then Availability.registerAvailabilityHandler (alias_ proxy) proxy s.handlers else s.handlers
      channel := if isNew then s.channel.join (alias_ proxy).key proxy else s.channel
      init := Function.update s.init proxy next.init
      availabilityStatus := Function.update s.availabilityStatus proxy next.availabilityStatus }

def handleAvailabilityChange (report : Report) (s : State π) : State π :=
  { s with
    availabilityCalled := insert (report.service, report.instance_) s.availabilityCalled
    channel := s.channel.pass (handlersFor s.handlers report) report }

def onAvailabilityChange (report : Report) (isMainLoop : Bool) (s : State π) : State π :=
  let s := { s with channel := s.channel.enter Concerns report }
  if isMainLoop then { s with channel := s.channel.push report } else handleAvailabilityChange report s

/-- The next handler of a pass, which is `onServiceInstanceStatus` of a proxy. -/
def callHandler (i : ℕ) (s : State π) : Option (State π) :=
  match s.channel.passes[i]? with
  | some ((proxy, report) :: _) =>
    (s.channel.tell (fun proxy => proxy ∉ s.expired) i).map fun channel =>
      if proxy ∈ s.expired then { s with channel := channel }
      else
        { s with
          channel := channel
          availabilityStatus := Function.update s.availabilityStatus proxy
            (ProxyStatus.onServiceInstanceStatus report.isAvailable (s.proxy alias_ proxy)).availabilityStatus }
  | _ => none

def step (s : State π) : Action π → Option (State π)
  | .init proxy => init alias_ proxy s
  | .unregisterAvailabilityHandler proxy handlerId =>
    some { s with handlers := Availability.unregisterAvailabilityHandler (alias_ proxy) handlerId s.handlers }
  | .call key op =>
    (Availability.step s.handlers (.call key op)).map fun handlers => { s with handlers := handlers }
  | .expire proxy => some { s with expired := insert proxy s.expired }
  | .onAvailabilityChange report isMainLoop => some (onAvailabilityChange report isMainLoop s)
  | .processAvblQueueEntry =>
    match s.channel.queue with
    | report :: rest => some (handleAvailabilityChange report { s with channel := { s.channel with queue := rest } })
    | [] => none
  | .callHandler i => callHandler alias_ i s
  | .onConnectionEvent isRegistered => some { s with isRegistered := isRegistered }
  | .change key isAvailable => some { s with isAvailable := Function.update s.isAvailable key isAvailable }

/-- `init` is careful, and handler ids are not used twice; who unregisters is a proxy that goes, with its
    own id. A report is for one instance and does not overtake others, and a handler is called in the
    order in which it was copied. -/
def Fair (s : State π) : Action π → Prop
  | .init proxy => ProxyStatus.Careful (s.proxy alias_ proxy) .init ∧ HasNewId s.handlers (alias_ proxy)
  | .unregisterAvailabilityHandler proxy handlerId =>
    proxy ∈ s.expired ∧ Owns s.handlers (alias_ proxy) proxy handlerId
  | .onAvailabilityChange report isMainLoop =>
    report.instance_ ≠ anyInstance ∧ (isMainLoop = false → s.channel.queue = [])
  | .callHandler i => s.channel.IsTurn i
  | _ => True

instance (s : State π) : (a : Action π) → Decidable (Fair alias_ s a)
  | .init proxy => inferInstanceAs (Decidable (_ ∧ HasNewId s.handlers (alias_ proxy)))
  | .unregisterAvailabilityHandler proxy handlerId =>
    inferInstanceAs (Decidable (proxy ∈ s.expired ∧ Owns s.handlers (alias_ proxy) proxy handlerId))
  | .onAvailabilityChange report isMainLoop =>
    inferInstanceAs (Decidable (report.instance_ ≠ anyInstance ∧ (isMainLoop = false → s.channel.queue = [])))
  | .callHandler i => inferInstanceAs (Decidable (s.channel.IsTurn i))
  | .call _ _ | .expire _ | .processAvblQueueEntry | .onConnectionEvent _ | .change _ _ => .isTrue trivial

/-- The proxy has a handler under the key and is still there. -/
def State.Added (s : State π) (key : Key) (proxy : π) : Prop :=
  key = (alias_ proxy).key ∧ proxy ∈ handlersOf s.handlers key ∧ proxy ∉ s.expired

instance (s : State π) (key : Key) (proxy : π) : Decidable (s.Added alias_ key proxy) :=
  inferInstanceAs (Decidable (_ ∧ _ ∧ _))

end Steps

section Handlers
variable {π : Type} {handlers : Availability.State π} {address : Address}

theorem handlersOf_register (proxy : π) (hnew : HasNewId handlers address) (key : Key) :
    handlersOf (Availability.registerAvailabilityHandler address proxy handlers) key =
      if key = address.key then proxy :: handlersOf handlers key else handlersOf handlers key := by
  unfold Availability.registerAvailabilityHandler
  by_cases hkey : key = address.key
  · subst hkey
    rw [if_pos rfl]
    unfold handlersOf
    cases hfound : handlers.availabilityHandlers.lookup address.key with
    | none =>
      dsimp only
      rw [AList.lookup_insert]
      rfl
    | some table =>
      dsimp only
      rw [AList.lookup_insert]
      change (table.insert (handlers.itsHandlerId + 1) proxy).entries.map Sigma.snd = _
      rw [AList.entries_insert_of_notMem (hnew table hfound)]
      rfl
  · rw [if_neg hkey]
    unfold handlersOf
    split
    all_goals
      dsimp only
      rw [AList.lookup_insert_ne hkey]

theorem handlersOf_unregister (handlerId : HandlerId) (key : Key) :
    handlersOf (Availability.unregisterAvailabilityHandler address handlerId handlers) key =
      if key = address.key then
        (handlers.availabilityHandlers.lookup key).elim [] fun table => (table.erase handlerId).entries.map Sigma.snd
      else handlersOf handlers key := by
  unfold Availability.unregisterAvailabilityHandler
  by_cases hkey : key = address.key
  · subst hkey
    rw [if_pos rfl]
    cases hfound : handlers.availabilityHandlers.lookup address.key with
    | none =>
      unfold handlersOf
      dsimp only
      rw [hfound]
      rfl
    | some table =>
      dsimp only
      split
      · rename_i hempty
        unfold handlersOf
        dsimp only
        rw [AList.lookup_erase, Option.elim_some, hempty]
        rfl
      · unfold handlersOf
        dsimp only
        rw [AList.lookup_insert]
        rfl
  · rw [if_neg hkey]
    unfold handlersOf
    split
    · split
      · dsimp only
        rw [AList.lookup_erase_ne hkey]
      · dsimp only
        rw [AList.lookup_insert_ne hkey]
    · rfl

theorem unregister_sublist (handlerId : HandlerId) (key : Key) :
    (handlersOf (Availability.unregisterAvailabilityHandler address handlerId handlers) key).Sublist
      (handlersOf handlers key) := by
  rw [handlersOf_unregister]
  split
  · unfold handlersOf
    cases handlers.availabilityHandlers.lookup key with
    | none => exact List.Sublist.refl _
    | some table => exact (Tables.erase_sublist handlerId table).map _
  · exact List.Sublist.refl _

theorem mem_unregister {handlerId : HandlerId} {proxy other : π} {key : Key}
    (hown : Owns handlers address proxy handlerId) (hother : other ≠ proxy) (hmem : other ∈ handlersOf handlers key) :
    other ∈ handlersOf (Availability.unregisterAvailabilityHandler address handlerId handlers) key := by
  rw [handlersOf_unregister]
  split
  · rename_i hkey
    subst hkey
    unfold handlersOf at hmem
    cases hfound : handlers.availabilityHandlers.lookup address.key with
    | none =>
      rw [hfound] at hmem
      exact absurd hmem List.not_mem_nil
    | some table =>
      rw [hfound] at hmem
      rcases List.mem_map.1 hmem with ⟨⟨id, one⟩, hentry, rfl⟩
      refine List.mem_map.2 ⟨⟨id, one⟩, ?_, rfl⟩
      have hid : id ≠ handlerId := by
        rintro rfl
        exact hother (hown table hfound one (AList.mem_lookup_iff.2 hentry))
      exact AList.mem_lookup_iff.1 ((AList.lookup_erase_ne hid).trans (AList.mem_lookup_iff.2 hentry))
  · exact hmem

end Handlers

section Views
variable {π : Type} [DecidableEq π] {alias_ : π → Address} {s t : State π}

/-- Handlers are under the keys of their proxies, each once, and calls are for whom they concern. -/
structure Placed (alias_ : π → Address) (s : State π) : Prop where
  nodup : ∀ key, (handlersOf s.handlers key).Nodup
  own : ∀ key, ∀ proxy ∈ handlersOf s.handlers key, (alias_ proxy).key = key
  begun : ∀ key, ∀ proxy ∈ handlersOf s.handlers key, s.init proxy ≠ .registerAvailabilityHandler
  queue : ∀ report ∈ s.channel.queue, report.instance_ ≠ anyInstance
  calls : ∀ call ∈ s.channel.passes.flatten, Concerns (alias_ call.1).key call.2

theorem init_only {proxy next : ProxyStatus.State} (h : ProxyStatus.init proxy = some next) :
    next = { proxy with
      handler := if proxy.init = .registerAvailabilityHandler then true else proxy.handler
      init := next.init
      availabilityStatus := next.availabilityStatus } ∧ next.init ≠ .registerAvailabilityHandler := by
  unfold ProxyStatus.init at h
  split at h <;> cases h <;> rename_i hphase <;> simp [hphase]
  all_goals
    try split <;> simp

theorem init_proxy {proxy : π} {next : ProxyStatus.State} (hunused : HasNewId s.handlers (alias_ proxy))
    (hnext : ProxyStatus.init (s.proxy alias_ proxy) = some next) (hstep : init alias_ proxy s = some t) :
    t.proxy alias_ proxy = next := by
  unfold init at hstep
  rw [hnext] at hstep
  cases hstep
  rw [(init_only hnext).1]
  by_cases hnew : s.init proxy = .registerAvailabilityHandler
  · simp only [State.proxy, hnew, if_true, Function.update_self, Channel.join]
    rw [handlersOf_register proxy hunused, if_pos rfl]
    simp
  · simp only [State.proxy, hnew, if_false, Function.update_self]

theorem init_result {proxy : π} (hunused : HasNewId s.handlers (alias_ proxy))
    (hstep : init alias_ proxy s = some t) :
    t.expired = s.expired ∧
      t.channel = (if s.init proxy = .registerAvailabilityHandler then s.channel.join (alias_ proxy).key proxy
        else s.channel) ∧
      ∀ key, handlersOf t.handlers key =
        if s.init proxy = .registerAvailabilityHandler ∧ key = (alias_ proxy).key then
          proxy :: handlersOf s.handlers key
        else handlersOf s.handlers key := by
  rcases Option.map_eq_some_iff.1 hstep with ⟨next, -, rfl⟩
  refine ⟨rfl, rfl, fun key => ?_⟩
  by_cases hnew : s.init proxy = .registerAvailabilityHandler
  · simp only [hnew, if_true, true_and]
    exact handlersOf_register proxy hunused key
  · simp only [hnew, if_false, false_and]

theorem init_others {proxy other : π} (hother : other ≠ proxy) (hunused : HasNewId s.handlers (alias_ proxy))
    (hstep : init alias_ proxy s = some t) : t.proxy alias_ other = s.proxy alias_ other := by
  rcases Option.map_eq_some_iff.1 hstep with ⟨next, -, rfl⟩
  by_cases hnew : s.init proxy = .registerAvailabilityHandler
  · simp only [State.proxy, hnew, if_true, Function.update_of_ne hother, Channel.join]
    rw [handlersOf_register proxy hunused]
    split
    · simp [hother]
    · rfl
  · simp only [State.proxy, hnew, if_false, Function.update_of_ne hother]

omit [DecidableEq π] in
theorem copied_own (h : Placed alias_ s) {report : Report} {proxy : π}
    (hproxy : (alias_ proxy).instance_ ≠ anyInstance) (hkey : (alias_ proxy).key = (report.service, report.instance_)) :
    proxy ∈ handlersFor s.handlers report ↔ proxy ∈ handlersOf s.handlers (alias_ proxy).key := by
  unfold handlersFor
  rw [List.mem_append, ← hkey]
  refine ⟨fun hmem => hmem.elim id fun hany => ?_, Or.inl⟩
  exact absurd (congrArg Prod.snd (h.own _ proxy hany)) hproxy

omit [DecidableEq π] in
theorem copied_nodup (h : Placed alias_ s) {report : Report} (hreport : report.instance_ ≠ anyInstance) :
    (handlersFor s.handlers report).Nodup := by
  refine List.Nodup.append (h.nodup _) (h.nodup _) fun proxy hone hany => ?_
  have hsame := (h.own _ proxy hone).symm.trans (h.own _ proxy hany)
  exact hreport (congrArg Prod.snd hsame)

/-- A pass for the instance of a proxy is a callback for it, and one for another instance is nothing. -/
theorem handle_proxy (h : Placed alias_ s) {report : Report} (hreport : report.instance_ ≠ anyInstance) {proxy : π}
    (hproxy : (alias_ proxy).instance_ ≠ anyInstance) :
    (handleAvailabilityChange report s).proxy alias_ proxy =
      if (alias_ proxy).key = (report.service, report.instance_) then
        ProxyStatus.handleAvailabilityChange report.isAvailable (s.proxy alias_ proxy)
      else s.proxy alias_ proxy := by
  have hpasses : forSubscriber Concerns (alias_ proxy).key proxy
      (handleAvailabilityChange report s).channel.passes.flatten =
        forSubscriber Concerns (alias_ proxy).key proxy s.channel.passes.flatten ++
          if proxy ∈ handlersFor s.handlers report then forKey Concerns (alias_ proxy).key [report] else [] := by
    change forSubscriber Concerns (alias_ proxy).key proxy (s.channel.passes ++ [_]).flatten = _
    rw [List.flatten_append, forSubscriber_append, List.flatten_singleton, forSubscriber_pass (copied_nodup h hreport)]
  unfold State.proxy
  rw [hpasses]
  by_cases hkey : (alias_ proxy).key = (report.service, report.instance_)
  · rw [if_pos hkey]
    have hconcerns : forKey Concerns (alias_ proxy).key [report] = [report] := by
      unfold forKey
      rw [hkey]
      simp [Concerns]
    rw [hconcerns]
    simp only [copied_own h hproxy hkey]
    unfold ProxyStatus.handleAvailabilityChange
    by_cases hmem : proxy ∈ handlersOf s.handlers (report.service, report.instance_) <;>
      simp [hmem, hkey, handleAvailabilityChange, Channel.pass]
  · rw [if_neg hkey]
    have hnone : forKey Concerns (alias_ proxy).key [report] = [] := by
      unfold forKey
      rw [List.filter_eq_nil_iff]
      intro other hother
      rw [List.mem_singleton] at hother
      subst hother
      intro hconcerns
      rcases of_decide_eq_true hconcerns with ⟨hservice, hone | hany⟩
      · exact hkey (Prod.ext hservice hone)
      · exact hproxy hany
    rw [hnone, ite_self, List.append_nil]
    simp only [handleAvailabilityChange, Channel.pass, Finset.mem_insert, hkey, false_or]
    rfl

end Views

section Calls
variable {π : Type} [DecidableEq π] {alias_ : π → Address} {s t : State π}

/-- A handler that is called is a callback that its proxy processes, and nothing to other proxies. -/
theorem call_proxy (h : Placed alias_ s) {i : ℕ} (hturn : s.channel.IsTurn i)
    (hstep : callHandler alias_ i s = some t) {proxy : π} (halive : proxy ∉ s.expired) :
    t.proxy alias_ proxy = s.proxy alias_ proxy ∨
      ProxyStatus.step (s.proxy alias_ proxy) .onServiceInstanceStatus = some (t.proxy alias_ proxy) := by
  unfold callHandler at hstep
  split at hstep
  · rename_i one report rest hget
    rcases Option.map_eq_some_iff.1 hstep with ⟨channel, htell, rfl⟩
    rcases tell_first hturn htell with ⟨first, hfirst, htold, hpasses⟩
    rw [hget] at hfirst
    cases hfirst
    have hcalls := hpasses Concerns (alias_ proxy).key proxy
    rw [forSubscriber_single] at hcalls
    by_cases hone : one = proxy
    · subst hone
      right
      have hmem : (one, report) ∈ s.channel.passes.flatten :=
        List.mem_flatten.2 ⟨_, List.mem_of_getElem? hget, List.mem_cons_self⟩
      have hconcerns : forKey Concerns (alias_ one).key [report] = [report] := by
        have hcall : Concerns (alias_ one).key report := h.calls _ hmem
        unfold forKey
        simp [hcall]
      rw [if_pos rfl, hconcerns] at hcalls
      rw [if_pos (decide_eq_true halive)] at htold
      rw [if_neg halive]
      have hpending : (s.proxy alias_ one).pending = report.isAvailable ::
          (forSubscriber Concerns (alias_ one).key one channel.passes.flatten).map Report.isAvailable := by
        change List.map _ (forSubscriber _ _ _ s.channel.passes.flatten) = _
        rw [hcalls]
        rfl
      unfold ProxyStatus.step
      dsimp only
      rw [hpending]
      dsimp only
      rw [ProxyStatus.onServiceInstanceStatus_status]
      unfold State.proxy
      dsimp only
      rw [htold, hcalls, Function.update_self, ProxyStatus.onServiceInstanceStatus_status, forSubscriber_append,
        forSubscriber_single, if_pos rfl, hconcerns]
      simp
    · left
      rw [if_neg hone, List.nil_append] at hcalls
      have htold' : forSubscriber Concerns (alias_ proxy).key proxy channel.told =
          forSubscriber Concerns (alias_ proxy).key proxy s.channel.told := by
        rw [htold]
        split
        · rw [forSubscriber_append, forSubscriber_single, if_neg hone, List.append_nil]
        · rfl
      by_cases hexpired : one ∈ s.expired
      · rw [if_pos hexpired]
        unfold State.proxy
        dsimp only
        rw [htold', hcalls]
      · rw [if_neg hexpired]
        unfold State.proxy
        dsimp only
        rw [htold', hcalls, Function.update_of_ne (Ne.symm hone)]
  · cases hstep

end Calls

section Invariant
variable {π : Type} [DecidableEq π] {alias_ : π → Address} {s t : State π}

omit [DecidableEq π] in
theorem Placed.less (h : Placed alias_ s)
    (hhandlers : ∀ key, (handlersOf t.handlers key).Sublist (handlersOf s.handlers key)) (hinit : t.init = s.init)
    (hqueue : ∀ report ∈ t.channel.queue, report ∈ s.channel.queue)
    (hcalls : ∀ call ∈ t.channel.passes.flatten, call ∈ s.channel.passes.flatten) : Placed alias_ t where
  nodup key := (h.nodup key).sublist (hhandlers key)
  own key proxy hmem := h.own key proxy ((hhandlers key).subset hmem)
  begun key proxy hmem := hinit ▸ h.begun key proxy ((hhandlers key).subset hmem)
  queue report hreport := h.queue report (hqueue report hreport)
  calls call hcall := h.calls call (hcalls call hcall)

theorem Placed.init (h : Placed alias_ s) {proxy : π} (hunused : HasNewId s.handlers (alias_ proxy))
    (hstep : ProxyAvailability.init alias_ proxy s = some t) : Placed alias_ t := by
  rcases init_result hunused hstep with ⟨-, hchannel, hhandlers⟩
  have hplaces : t.channel.queue = s.channel.queue ∧ t.channel.passes = s.channel.passes := by
    rw [hchannel]
    split <;> exact ⟨rfl, rfl⟩
  have hbegun : ∀ other, s.init other ≠ .registerAvailabilityHandler ∨ other = proxy →
      t.init other ≠ .registerAvailabilityHandler := by
    intro other hother
    rcases Option.map_eq_some_iff.1 hstep with ⟨next, hnext, rfl⟩
    change Function.update s.init proxy next.init other ≠ _
    by_cases hsame : other = proxy
    · rw [hsame, Function.update_self]
      exact (init_only hnext).2
    · rw [Function.update_of_ne hsame]
      exact hother.resolve_right hsame
  have hmem : ∀ key other, other ∈ handlersOf t.handlers key →
      other ∈ handlersOf s.handlers key ∨ (key = (alias_ proxy).key ∧ other = proxy) := by
    intro key other hother
    rw [hhandlers] at hother
    split at hother
    · rename_i hjoins
      exact (List.mem_cons.1 hother).elim (fun hsame => Or.inr ⟨hjoins.2, hsame⟩) Or.inl
    · exact Or.inl hother
  constructor
  · intro key
    rw [hhandlers]
    split
    · rename_i hjoins
      exact List.nodup_cons.2 ⟨fun hold => h.begun key proxy hold hjoins.1, h.nodup key⟩
    · exact h.nodup key
  · intro key other hother
    rcases hmem key other hother with hold | ⟨hkey, rfl⟩
    · exact h.own key other hold
    · exact hkey.symm
  · intro key other hother
    rcases hmem key other hother with hold | ⟨-, hsame⟩
    · exact hbegun other (Or.inl (h.begun key other hold))
    · exact hbegun other (Or.inr hsame)
  · rw [hplaces.1]
    exact h.queue
  · rw [hplaces.2]
    exact h.calls

omit [DecidableEq π] in
theorem Placed.handle (h : Placed alias_ s) (report : Report) : Placed alias_ (handleAvailabilityChange report s) where
  nodup := h.nodup
  own := h.own
  begun := h.begun
  queue := h.queue
  calls call hcall := by
    change call ∈ (s.channel.passes ++ [_]).flatten at hcall
    rw [List.flatten_append, List.flatten_singleton] at hcall
    rcases List.mem_append.1 hcall with hold | hnew
    · exact h.calls call hold
    · rcases List.mem_map.1 hnew with ⟨proxy, hproxy, rfl⟩
      rcases List.mem_append.1 hproxy with hone | hany
      · have hkey := h.own _ proxy hone
        exact ⟨congrArg Prod.fst hkey, Or.inl (congrArg Prod.snd hkey)⟩
      · have hkey := h.own _ proxy hany
        exact ⟨congrArg Prod.fst hkey, Or.inr (congrArg Prod.snd hkey)⟩

/-- The handlers and the calls are in their places, reports are passed on faithfully, and each proxy of one
    instance does what a proxy does. -/
structure Sound (alias_ : π → Address) (s : State π) : Prop where
  placed : Placed alias_ s
  faithful : Faithful Concerns (s.Added alias_) s.channel
  good : ∀ proxy ∉ s.expired, (alias_ proxy).instance_ ≠ anyInstance → ProxyStatus.Good (s.proxy alias_ proxy)

omit [DecidableEq π] in
theorem all_copied (s : State π) (report : Report) (key : Key) (proxy : π) (h : s.Added alias_ key proxy)
    (hconcerns : Concerns key report) :
    proxy ∈ handlersFor s.handlers report := by
  rcases key with ⟨service, instance_⟩
  rcases hconcerns with ⟨rfl, rfl | rfl⟩
  · exact List.mem_append_left _ h.2.1
  · exact List.mem_append_right _ h.2.1

theorem handle_good (h : Placed alias_ s) {report : Report} (hreport : report.instance_ ≠ anyInstance) {proxy : π}
    (hproxy : (alias_ proxy).instance_ ≠ anyInstance) (hgood : ProxyStatus.Good (s.proxy alias_ proxy)) :
    ProxyStatus.Good ((handleAvailabilityChange report s).proxy alias_ proxy) := by
  rw [handle_proxy h hreport hproxy]
  split
  · exact hgood.handleAvailabilityChange report.isAvailable
  · exact hgood

omit [DecidableEq π] in
theorem call_handlers {key : Key} {op : Mirroring.Op MajorVersion} {handlers : Availability.State π}
    (h : Availability.step s.handlers (.call key op) = some handlers) :
    handlersOf handlers = handlersOf s.handlers := by
  unfold Availability.step at h
  dsimp only at h
  split at h
  · cases h
    cases op <;> rfl
  · cases h

end Invariant

section Runs
variable {π : Type} [DecidableEq π] {alias_ : π → Address} {s t : State π}

theorem Sound.init (h : Sound alias_ s) {proxy : π} (hok : Fair alias_ s (.init proxy))
    (hstep : ProxyAvailability.init alias_ proxy s = some t) : Sound alias_ t where
  placed := h.placed.init hok.2 hstep
  faithful := by
    rcases init_result hok.2 hstep with ⟨hexpired, hchannel, hhandlers⟩
    by_cases hnew : s.init proxy = .registerAvailabilityHandler
    · rw [hchannel, if_pos hnew]
      refine h.faithful.join fun key other hadded => ?_
      rcases hadded with ⟨hkey, hmem, hthere⟩
      rw [hhandlers] at hmem
      rw [hexpired] at hthere
      split at hmem
      · rename_i hjoins
        rcases List.mem_cons.1 hmem with hsame | hold
        · exact Or.inl ⟨hjoins.2, hsame⟩
        · exact Or.inr ⟨hkey, hold, hthere⟩
      · exact Or.inr ⟨hkey, hmem, hthere⟩
    · rw [hchannel, if_neg hnew]
      refine h.faithful.mono fun key other hadded => ?_
      rcases hadded with ⟨hkey, hmem, hthere⟩
      rw [hhandlers, if_neg fun hjoins => hnew hjoins.1] at hmem
      exact ⟨hkey, hmem, hexpired ▸ hthere⟩
  good other hother hinstance := by
    have hexpired := (init_result hok.2 hstep).1
    have hgood := h.good other (hexpired ▸ hother) hinstance
    by_cases hsame : other = proxy
    · subst hsame
      rcases Option.map_eq_some_iff.1 hstep with ⟨next, hnext, -⟩
      rw [init_proxy hok.2 hnext hstep]
      exact hgood.init hok.1 hnext
    · rw [init_others hsame hok.2 hstep]
      exact hgood

theorem Sound.unregister (h : Sound alias_ s) {proxy : π} {handlerId : HandlerId}
    (hok : Fair alias_ s (.unregisterAvailabilityHandler proxy handlerId)) :
    Sound alias_ { s with
      handlers := Availability.unregisterAvailabilityHandler (alias_ proxy) handlerId s.handlers } where
  placed := h.placed.less (unregister_sublist handlerId) rfl (fun _ hreport => hreport) fun _ hcall => hcall
  faithful := h.faithful.mono fun key other hadded =>
    ⟨hadded.1, (unregister_sublist handlerId key).subset hadded.2.1, hadded.2.2⟩
  good other hother hinstance := by
    have hne : other ≠ proxy := by
      rintro rfl
      exact hother hok.1
    have hsame : ({ s with
        handlers := Availability.unregisterAvailabilityHandler (alias_ proxy) handlerId s.handlers } : State π).proxy
          alias_ other = s.proxy alias_ other := by
      unfold State.proxy
      dsimp only
      have hiff : other ∈ handlersOf (Availability.unregisterAvailabilityHandler (alias_ proxy) handlerId s.handlers)
          (alias_ other).key ↔ other ∈ handlersOf s.handlers (alias_ other).key :=
        ⟨fun hmem => (unregister_sublist handlerId _).subset hmem, mem_unregister hok.2 hne⟩
      simp only [hiff]
    rw [hsame]
    exact h.good other hother hinstance

theorem Sound.call (h : Sound alias_ s) {key : Key} {op : Mirroring.Op MajorVersion} {handlers : Availability.State π}
    (hstep : Availability.step s.handlers (.call key op) = some handlers) :
    Sound alias_ { s with handlers := handlers } := by
  have hsame := call_handlers hstep
  refine ⟨h.placed.less (fun key => ?_) rfl (fun _ hreport => hreport) fun _ hcall => hcall, ?_, ?_⟩
  · exact (congrFun hsame key) ▸ List.Sublist.refl _
  · exact h.faithful.mono fun key other hadded => ⟨hadded.1, (congrFun hsame key) ▸ hadded.2.1, hadded.2.2⟩
  · intro other hother hinstance
    have hview : ({ s with handlers := handlers } : State π).proxy alias_ other = s.proxy alias_ other := by
      unfold State.proxy
      dsimp only
      rw [hsame]
    rw [hview]
    exact h.good other hother hinstance

theorem Sound.report (h : Sound alias_ s) {report : Report} {isMainLoop : Bool}
    (hok : Fair alias_ s (.onAvailabilityChange report isMainLoop)) :
    Sound alias_ (onAvailabilityChange report isMainLoop s) := by
  cases isMainLoop with
  | true =>
    refine ⟨⟨h.placed.nodup, h.placed.own, h.placed.begun, fun other hother => ?_, h.placed.calls⟩,
      h.faithful.queued report, h.good⟩
    rcases List.mem_append.1 hother with hold | hnew
    · exact h.placed.queue other hold
    · rw [List.mem_singleton.1 hnew]
      exact hok.1
  | false =>
    have hentered : Placed alias_ { s with channel := s.channel.enter Concerns report } :=
      ⟨h.placed.nodup, h.placed.own, h.placed.begun, h.placed.queue, h.placed.calls⟩
    exact ⟨hentered.handle report,
      h.faithful.passed (hok.2 rfl) (copied_nodup h.placed hok.1) report (all_copied s report),
      fun other hother hinstance => handle_good hentered hok.1 hinstance (h.good other hother hinstance)⟩

theorem Sound.dispatch (h : Sound alias_ s) {report : Report} {rest : List Report}
    (hqueue : s.channel.queue = report :: rest) :
    Sound alias_ (handleAvailabilityChange report { s with channel := { s.channel with queue := rest } }) := by
  have hreport := h.placed.queue report (hqueue ▸ List.mem_cons_self)
  have hless : Placed alias_ { s with channel := { s.channel with queue := rest } } :=
    ⟨h.placed.nodup, h.placed.own, h.placed.begun,
      fun other hother => h.placed.queue other (hqueue ▸ List.mem_cons_of_mem _ hother), h.placed.calls⟩
  exact ⟨hless.handle report, h.faithful.taken hqueue (copied_nodup h.placed hreport) (all_copied s report),
    fun other hother hinstance => handle_good hless hreport hinstance (h.good other hother hinstance)⟩

theorem callHandler_frame {i : ℕ} (h : callHandler alias_ i s = some t) :
    t.handlers = s.handlers ∧ t.expired = s.expired ∧ t.init = s.init ∧
      s.channel.tell (fun proxy => proxy ∉ s.expired) i = some t.channel := by
  unfold callHandler at h
  split at h
  · rcases Option.map_eq_some_iff.1 h with ⟨channel, htell, rfl⟩
    split <;> exact ⟨rfl, rfl, rfl, htell⟩
  · cases h

theorem Sound.callHandler (h : Sound alias_ s) {i : ℕ} (hturn : s.channel.IsTurn i)
    (hstep : ProxyAvailability.callHandler alias_ i s = some t) : Sound alias_ t := by
  rcases callHandler_frame hstep with ⟨hhandlers, hexpired, hinit, htell⟩
  rcases tell_some htell with ⟨_, _, rest, later, hpasses, -, hchannel⟩
  constructor
  · refine h.placed.less (fun key => by rw [hhandlers]) hinit (fun report hreport => ?_) fun call hcall => ?_
    · rw [hchannel] at hreport
      exact hreport
    · rw [hchannel] at hcall
      rw [hpasses]
      simp only [List.flatten_append, List.flatten_cons, List.mem_append, List.mem_cons] at hcall ⊢
      tauto
  · refine (h.faithful.tell hturn (fun _ _ hadded => decide_eq_true hadded.2.2) htell).mono fun key other hadded => ?_
    unfold State.Added at hadded
    rw [hhandlers, hexpired] at hadded
    exact hadded
  · intro other hother hinstance
    rw [hexpired] at hother
    have hgood := h.good other hother hinstance
    rcases call_proxy h.placed hturn hstep hother with hsame | hstep
    · rw [hsame]
      exact hgood
    · exact ProxyStatus.step_good .onServiceInstanceStatus hgood trivial hstep

theorem step_sound {a : Action π} (h : Sound alias_ s) (hok : Fair alias_ s a) (hstep : step alias_ s a = some t) :
    Sound alias_ t := by
  cases a with
  | init proxy => exact h.init hok hstep
  | unregisterAvailabilityHandler proxy handlerId =>
    cases hstep
    exact h.unregister hok
  | call key op =>
    rcases Option.map_eq_some_iff.1 hstep with ⟨handlers, hrun, rfl⟩
    exact h.call hrun
  | expire proxy =>
    cases hstep
    exact ⟨h.placed.less (fun _ => List.Sublist.refl _) rfl (fun _ hreport => hreport) fun _ hcall => hcall,
      h.faithful.mono fun _ _ hadded => ⟨hadded.1, hadded.2.1, fun hmem => hadded.2.2 (Finset.mem_insert_of_mem hmem)⟩,
      fun other hother => h.good other fun hmem => hother (Finset.mem_insert_of_mem hmem)⟩
  | onAvailabilityChange report isMainLoop =>
    cases hstep
    exact h.report hok
  | processAvblQueueEntry =>
    unfold step at hstep
    dsimp only at hstep
    split at hstep
    · rename_i report rest hqueue
      cases hstep
      exact h.dispatch hqueue
    · cases hstep
  | callHandler i => exact h.callHandler hok hstep
  | onConnectionEvent isRegistered =>
    cases hstep
    refine ⟨h.placed.less (fun _ => List.Sublist.refl _) rfl (fun _ hreport => hreport) fun _ hcall => hcall,
      h.faithful, fun other hother hinstance => ?_⟩
    exact ProxyStatus.step_good (.onConnectionEvent isRegistered) (h.good other hother hinstance) trivial rfl
  | change key isAvailable =>
    cases hstep
    refine ⟨h.placed.less (fun _ => List.Sublist.refl _) rfl (fun _ hreport => hreport) fun _ hcall => hcall,
      h.faithful, fun other hother hinstance => ?_⟩
    have hgood := h.good other hother hinstance
    exact ProxyStatus.step_good (.change (Function.update s.isAvailable key isAvailable (alias_ other).key)) hgood
      trivial rfl

theorem initial_sound (isRegistered : Bool) (isAvailable : Key → Bool) :
    Sound alias_ (initial isRegistered isAvailable) where
  placed := ⟨fun _ => List.nodup_nil, fun _ _ hmem => absurd hmem List.not_mem_nil,
    fun _ _ hmem => absurd hmem List.not_mem_nil, fun _ hmem => absurd hmem List.not_mem_nil,
    fun _ hmem => absurd hmem List.not_mem_nil⟩
  faithful := initial_faithful
  good _ _ _ := ⟨List.suffix_rfl, fun _ => nofun⟩

def Alone (alias_ : π → Address) (s : State π) : Action π → Prop
  | .processAvblQueueEntry => True
  | .callHandler i => Fair alias_ s (.callHandler i)
  | _ => False

structure SameRecords (s t : State π) : Prop where
  handlers : t.handlers = s.handlers
  expired : t.expired = s.expired
  since : t.channel.since = s.channel.since

theorem alone_step {a : Action π} (halone : Alone alias_ s a) (hstep : step alias_ s a = some t) :
    Fair alias_ s a ∧ SameRecords s t := by
  cases a with
  | processAvblQueueEntry =>
    unfold step at hstep
    dsimp only at hstep
    split at hstep
    · cases hstep
      exact ⟨trivial, rfl, rfl, rfl⟩
    · cases hstep
  | callHandler i =>
    rcases callHandler_frame hstep with ⟨hhandlers, hexpired, -, htell⟩
    rcases tell_some htell with ⟨_, _, _, _, -, -, hchannel⟩
    exact ⟨halone, hhandlers, hexpired, by rw [hchannel]⟩
  | _ => exact halone.elim

/-- While a handler is to be called, one can be called in its turn. -/
theorem call_goes_on (h : s.channel.passes.flatten ≠ []) : ∃ a t, Alone alias_ s a ∧ step alias_ s a = some t ∧
    t.channel.passes.flatten.length < s.channel.passes.flatten.length ∧ t.channel.queue = s.channel.queue := by
  rcases exists_turn (fun proxy => proxy ∉ s.expired) h with ⟨i, channel, hturn, htell, hless, hqueue, -, -⟩
  rcases tell_some htell with ⟨one, report, rest, -, -, hget, -⟩
  have hstep : ∃ t, callHandler alias_ i s = some t := by
    unfold callHandler
    rw [hget]
    dsimp only
    rw [htell]
    exact ⟨_, rfl⟩
  rcases hstep with ⟨t, ht⟩
  have hsame := htell.symm.trans (callHandler_frame ht).2.2.2
  cases hsame
  exact ⟨.callHandler i, t, hturn, ht, hless, hqueue⟩

theorem works_off_alone (alias_ : π → Address) (s : State π) : ∃ t, Reachable (step alias_) (Alone alias_) s t ∧
    t.channel.queue = [] ∧ t.channel.passes.flatten = [] := by
  apply @works_off Key π Report (State π) (Action π) (step alias_) (Alone alias_) State.channel
  · exact fun s hcalls => call_goes_on hcalls
  · intro s report rest hqueue
    have hstep : step alias_ s .processAvblQueueEntry =
        some (handleAvailabilityChange report { s with channel := { s.channel with queue := rest } }) := by
      unfold step
      dsimp only
      rw [hqueue]
    exact ⟨.processAvblQueueEntry, _, trivial, hstep, rfl⟩

/-- If the connection just goes on, each proxy that is there comes to have the status that vsomeip has
    reported last for its instance since the proxy has registered its handler. -/
theorem statuses_become_current {isRegistered : Bool} {isAvailable : Key → Bool}
    (h : Reachable (step alias_) (Fair alias_) (initial isRegistered isAvailable) s) :
    ∃ t, Reachable (step alias_) (Alone alias_) s t ∧ t.channel.queue = [] ∧ t.channel.passes.flatten = [] ∧
      ∀ proxy, s.Added alias_ (alias_ proxy).key proxy → (alias_ proxy).instance_ ≠ anyInstance →
        ∀ report ∈ (s.channel.since (alias_ proxy).key proxy).getLast?,
          t.availabilityStatus proxy = .of report.isAvailable := by
  have hsound : Sound alias_ s := h.invariant (initial_sound _ _) fun _ _ _ => step_sound
  rcases works_off_alone alias_ s with ⟨t, ht, hqueue, hpasses⟩
  have hsame : SameRecords s t := by
    apply ht.invariant (I := SameRecords s) ⟨rfl, rfl, rfl⟩
    intro u a v hsame hok hstep
    have hnext := (alone_step hok hstep).2
    exact ⟨hnext.handlers.trans hsame.handlers, hnext.expired.trans hsame.expired, hnext.since.trans hsame.since⟩
  have htsound : Sound alias_ t := ht.invariant hsound fun _ _ _ hu hok hstep =>
    step_sound hu (alone_step hok hstep).1 hstep
  refine ⟨t, ht, hqueue, hpasses, fun proxy hadded hinstance report hlast => ?_⟩
  have hthere : t.Added alias_ (alias_ proxy).key proxy := by
    unfold State.Added
    rw [hsame.handlers, hsame.expired]
    exact hadded
  have hcomplete := htsound.faithful.complete _ proxy hthere
  rw [hsame.since] at hcomplete
  unfold Channel.deliveries Channel.onTheWay at hcomplete
  rw [hqueue, hpasses] at hcomplete
  change _ <:+ forSubscriber Concerns (alias_ proxy).key proxy t.channel.told ++ [] at hcomplete
  rw [List.append_nil] at hcomplete
  have hpending : (t.proxy alias_ proxy).pending = [] := by
    unfold State.proxy
    dsimp only
    rw [hpasses]
    rfl
  apply (htsound.good proxy hthere.2.2 hinstance).upToDate hpending
  have htold : (forSubscriber Concerns (alias_ proxy).key proxy t.channel.told).getLast? = some report := by
    rcases hcomplete with ⟨before, hbefore⟩
    rw [← hbefore, List.getLast?_append, hlast]
    rfl
  unfold State.proxy
  dsimp only
  rw [hpasses]
  change report.isAvailable ∈ (List.map Report.isAvailable _ ++ []).getLast?
  rw [List.append_nil, List.getLast?_map, htold]
  rfl

end Runs

section Examples

def instanceOf (proxy : ℕ) : Address := ⟨0x1234, BitVec.ofNat 16 proxy, 1, 0⟩

/-- The instance of the first proxy comes while the proxy is in `init`, and goes when a second proxy has been
    made. -/
def comesAndGoes : List (Action ℕ) :=
  [.init 1, .onAvailabilityChange ⟨0x1234, 1, true⟩ true, .init 1, .processAvblQueueEntry, .init 1, .init 1, .init 2,
    .onAvailabilityChange ⟨0x1234, 1, false⟩ true, .callHandler 0, .init 1, .init 1]

theorem first_status_becomes_current : ∃ s ∈ run (step instanceOf) (initial true fun _ => true) comesAndGoes, ∃ t,
    Reachable (step instanceOf) (Alone instanceOf) s t ∧ t.availabilityStatus 1 = .notAvailable := by
  have hmeets : Meets (step instanceOf) (Fair instanceOf) (initial true fun _ => true) comesAndGoes := by
    decide +kernel
  have hadded : ∃ s ∈ run (step instanceOf) (initial true fun _ => true) comesAndGoes,
      s.Added instanceOf (instanceOf 1).key 1 ∧
        ⟨0x1234, 1, false⟩ ∈ (s.channel.since (instanceOf 1).key 1).getLast? := by
    decide +kernel
  rcases hadded with ⟨s, hrun, hadded, hlast⟩
  rcases statuses_become_current (.of_run _ hmeets hrun) with ⟨t, ht, -, -, hcurrent⟩
  exact ⟨s, hrun, t, ht, hcurrent 1 hadded (by decide) _ hlast⟩

end Examples

end SomeIPRuntime.ProxyAvailability
