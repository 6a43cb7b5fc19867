import SomeIPRuntime.ServiceRequests

set_option autoImplicit false

namespace SomeIPRuntime.MessageHandlers
open StepSystems ServiceRequests

abbrev Key := ServiceId × InstanceId

/-- `requested`, `offered`, `offeredEvents` and `handlers` are what vsomeip has, the handlers for
    `ANY_METHOD`. -/
structure State where
  stubMessageHandler : Bool
  requestedServices : Key → Option Count
  registeredEvents : Key → Finset EventId
  requested : Finset Key
  offered : Finset Address
  offeredEvents : Finset (Key × EventId)
  handlers : Finset Key

def initial : State := ⟨true, fun _ => none, fun _ => ∅, ∅, ∅, ∅, ∅⟩

def registerService (address : Address) (s : State) : State :=
  if !s.stubMessageHandler then s
  else
    { s with
      handlers := insert address.key s.handlers
      offered := insert address s.offered }

def unregisterService (address : Address) (s : State) : State :=
  if !s.stubMessageHandler then s
  else
    { s with
      registeredEvents := Function.update s.registeredEvents address.key ∅
      offered := s.offered.erase address
      handlers := s.handlers.erase address.key
      offeredEvents :=
        s.offeredEvents \ (s.registeredEvents address.key).image fun event => (address.key, event) }

def requestService (address : Address) (s : State) : State :=
  let counted := request (s.requestedServices address.key)
  let s := { s with
    requestedServices := Function.update s.requestedServices address.key (some counted.1) }
  if counted.2 then s
  else
    { s with
      requested := insert address.key s.requested
      handlers := insert address.key s.handlers }

def releaseService (address : Address) (s : State) : State :=
  match s.requestedServices address.key with
  | some count =>
    if release count = 0 then
      { s with
        requested := s.requested.erase address.key
        requestedServices := Function.update s.requestedServices address.key none }
    else
      { s with
        requestedServices := Function.update s.requestedServices address.key (some (release count)) }
  | none => s

def registerEvent (key : Key) (event : EventId) (s : State) : State :=
  { s with
    registeredEvents := Function.update s.registeredEvents key (insert event (s.registeredEvents key))
    offeredEvents := insert (key, event) s.offeredEvents }

inductive Action
  | requestService (address : Address)
  | releaseService (address : Address)
  | registerService (address : Address)
  | unregisterService (address : Address)
  | registerEvent (key : Key) (event : EventId)

def step (s : State) : Action → Option State
  | .requestService address => some (requestService address s)
  | .releaseService address => some (releaseService address s)
  | .registerService address => some (registerService address s)
  | .unregisterService address => some (unregisterService address s)
  | .registerEvent key event => some (registerEvent key event s)

def InUse (s : State) (key : Key) : Prop :=
  (∃ count, s.requestedServices key = some count ∧ 0 < count) ∨ ∃ address ∈ s.offered, address.key = key

def Handled (s : State) : Prop := ∀ key, InUse s key → key ∈ s.handlers

/-- A service is unregistered only where it is neither requested nor offered under another
    address. No request finds a count that has wrapped around to zero, unless there is a handler. -/
def Unshared (s : State) : Action → Prop
  | .requestService address => s.requestedServices address.key = some 0 → address.key ∈ s.handlers
  | .unregisterService address =>
    (∀ count, s.requestedServices address.key = some count → ¬ 0 < count) ∧
      ∀ other ∈ s.offered, other.key = address.key → other = address
  | .releaseService _ | .registerService _ | .registerEvent _ _ => True

section Operations
variable {s : State} {address : Address}

theorem update_count {key : Key} (entry : Option Count) (h : key ≠ address.key) :
    Function.update s.requestedServices address.key entry key = s.requestedServices key :=
  Function.update_of_ne h entry s.requestedServices

theorem release_pos {count : Count} (h : release count ≠ 0) : 0 < count := by
  unfold release at h
  split at h
  · assumption
  · next hzero => exact absurd (BitVec.eq_of_toNat_eq (by simpa [BitVec.lt_def] using hzero)) h

theorem handled_requestService (h : Handled s)
    (hfresh : s.requestedServices address.key = some 0 → address.key ∈ s.handlers) :
    Handled (requestService address s) := by
  unfold requestService
  cases hcount : s.requestedServices address.key with
  | none =>
    intro key huse
    by_cases hkey : key = address.key
    · rw [hkey]
      exact Finset.mem_insert_self _ _
    · obtain ⟨count, hentry, hpos⟩ | hoffered := huse
      · exact Finset.mem_insert_of_mem
          (h key (Or.inl ⟨count, (update_count _ hkey).symm.trans hentry, hpos⟩))
      · exact Finset.mem_insert_of_mem (h key (Or.inr hoffered))
  | some old =>
    intro key huse
    by_cases hkey : key = address.key
    · subst hkey
      by_cases hzero : old = 0
      · exact hfresh (hzero ▸ hcount)
      · have hpos : 0 < old := BitVec.lt_def.2 (Nat.pos_of_ne_zero fun hnat =>
          hzero (BitVec.eq_of_toNat_eq hnat))
        exact h _ (Or.inl ⟨old, hcount, hpos⟩)
    · obtain ⟨count, hentry, hpos⟩ | hoffered := huse
      · exact h key (Or.inl ⟨count, (update_count _ hkey).symm.trans hentry, hpos⟩)
      · exact h key (Or.inr hoffered)

theorem handled_releaseService (h : Handled s) : Handled (releaseService address s) := by
  unfold releaseService
  cases hcount : s.requestedServices address.key with
  | none => exact h
  | some old =>
    dsimp only
    split
    · intro key huse
      obtain ⟨count, hentry, hpos⟩ | hoffered := huse
      · by_cases hkey : key = address.key
        · subst hkey
          cases (Function.update_self _ _ _).symm.trans hentry
        · exact h key (Or.inl ⟨count, (update_count _ hkey).symm.trans hentry, hpos⟩)
      · exact h key (Or.inr hoffered)
    · next hleft =>
      intro key huse
      obtain ⟨count, hentry, hpos⟩ | hoffered := huse
      · by_cases hkey : key = address.key
        · subst hkey
          exact h _ (Or.inl ⟨old, hcount, release_pos hleft⟩)
        · exact h key (Or.inl ⟨count, (update_count _ hkey).symm.trans hentry, hpos⟩)
      · exact h key (Or.inr hoffered)

theorem handled_registerService (h : Handled s) : Handled (registerService address s) := by
  unfold registerService
  split
  · exact h
  · intro key huse
    obtain hrequested | ⟨other, hother, hkey⟩ := huse
    · exact Finset.mem_insert_of_mem (h key (Or.inl hrequested))
    · obtain rfl | hother := Finset.mem_insert.1 hother
      · exact hkey ▸ Finset.mem_insert_self _ _
      · exact Finset.mem_insert_of_mem (h key (Or.inr ⟨other, hother, hkey⟩))

theorem handled_unregisterService (h : Handled s) (hstub : s.stubMessageHandler = true) :
    Handled (unregisterService address s) ↔ Unshared s (.unregisterService address) := by
  unfold unregisterService
  rw [hstub]
  constructor
  · intro hafter
    have hgone : address.key ∉ s.handlers.erase address.key := Finset.notMem_erase _ _
    constructor
    · exact fun count hentry hpos => hgone (hafter _ (Or.inl ⟨count, hentry, hpos⟩))
    · intro other hother hkey
      by_contra hne
      exact hgone (hafter _ (Or.inr ⟨other, Finset.mem_erase.2 ⟨hne, hother⟩, hkey⟩))
  · rintro ⟨hcount, halone⟩ key huse
    have hkey : key ≠ address.key := by
      rintro rfl
      obtain ⟨count, hentry, hpos⟩ | ⟨other, hother, hkey⟩ := huse
      · exact hcount count hentry hpos
      · obtain ⟨hne, hother⟩ := Finset.mem_erase.1 hother
        exact hne (halone other hother hkey)
    refine Finset.mem_erase.2 ⟨hkey, h key ?_⟩
    obtain hrequested | ⟨other, hother, hother'⟩ := huse
    · exact Or.inl hrequested
    · exact Or.inr ⟨other, (Finset.mem_erase.1 hother).2, hother'⟩

/-- A request that finds a count of zero makes the service used, and leaves the handlers. -/
theorem handler_of_wrapped (hzero : s.requestedServices address.key = some 0)
    (hafter : Handled (requestService address s)) : address.key ∈ s.handlers := by
  unfold requestService at hafter
  rw [hzero] at hafter
  exact hafter _ (Or.inl ⟨1, Function.update_self _ _ _, by decide⟩)

end Operations

theorem step_stub {s t : State} {a : Action} (h : step s a = some t) :
    t.stubMessageHandler = s.stubMessageHandler := by
  cases a <;> cases h
  · unfold requestService
    dsimp only
    split <;> rfl
  · unfold releaseService
    split
    · split <;> rfl
    · rfl
  · unfold registerService
    split <;> rfl
  · unfold unregisterService
    split <;> rfl
  · rfl

theorem handled_step {s t : State} {a : Action} (h : Handled s) (hstub : s.stubMessageHandler = true)
    (hok : Unshared s a) (hstep : step s a = some t) : Handled t := by
  cases a <;> cases hstep
  · exact handled_requestService h hok
  · exact handled_releaseService h
  · exact handled_registerService h
  · exact (handled_unregisterService h hstub).2 hok
  · exact h

theorem run_total (as : List Action) (s : State) : ∃ t, run step s as = some t := by
  induction as generalizing s with
  | nil => exact ⟨s, rfl⟩
  | cons a as ih => cases a <;> exact ih _

/-- The services in use have message handlers all along a run exactly if no step of it shares. -/
theorem handlers_outlive_users_iff (as : List Action) :
    Along step Handled initial as ↔ Meets step Unshared initial as := by
  obtain ⟨t, hrun⟩ := run_total as initial
  refine along_iff_meets (I := fun s => Handled s ∧ s.stubMessageHandler = true) hrun ⟨?_, rfl⟩
    (fun s hs => hs.1) ?_ ?_
  · rintro key (⟨count, hentry, _⟩ | ⟨address, hoffered, _⟩)
    · cases hentry
    · exact absurd hoffered (Finset.notMem_empty _)
  · exact fun s a t hs hok hstep => ⟨handled_step hs.1 hs.2 hok hstep, (step_stub hstep).trans hs.2⟩
  · intro s a t hs hstep hafter
    cases a <;> cases hstep
    · exact fun hzero => handler_of_wrapped hzero hafter
    · trivial
    · trivial
    · exact (handled_unregisterService hs.1 hs.2).1 hafter
    · trivial

/-- A proxy and a stub of one service: the handler goes with the stub. -/
theorem stub_takes_handler : ¬ ∀ as, Along step Handled initial as := by
  intro h
  obtain ⟨_, hrest⟩ := h [.requestService ⟨1, 1, 1, 0⟩, .registerService ⟨1, 1, 1, 0⟩,
    .unregisterService ⟨1, 1, 1, 0⟩]
  obtain ⟨_, hrest⟩ := hrest _ rfl
  obtain ⟨_, hrest⟩ := hrest _ rfl
  have hhandled := hrest _ rfl (1, 1) (Or.inl ⟨1, rfl, by decide⟩)
  revert hhandled
  decide

end SomeIPRuntime.MessageHandlers
