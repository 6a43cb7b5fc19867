import SomeIPRuntime.Address
import SomeIPRuntime.StepSystems

set_option autoImplicit false

namespace SomeIPRuntime.ServiceRequests
open StepSystems

abbrev Count := BitVec 32

/-- The locked block of `requestService`: the new count, and whether there was one. -/
def request : Option Count → Count × Bool
  | some count => (count + 1, true)
  | none => (1, false)

def release (count : Count) : Count := if 0 < count then count - 1 else count

inductive Phase
  /-- behind the locked block of its request -/
  | decided (found : Bool)
  /-- between `request_service` and `register_message_handler` -/
  | registering
  | held
  /-- in the locked block of its release, before `release_service` -/
  | releasing
  /-- before the entry is erased -/
  | erasing
  | released
  deriving DecidableEq, Repr

/-- `count` is the entry of `requestedServices_`, `requested` is what vsomeip has. -/
structure State where
  count : Option Count
  holders : List Phase
  requested : Bool

def initial : State := ⟨none, [], false⟩

inductive Action
  /-- a new holder runs the locked block of its request -/
  | request
  /-- the next step of a holder -/
  | proceed (i : ℕ)

def Unlocked (s : State) : Prop := Phase.releasing ∉ s.holders ∧ Phase.erasing ∉ s.holders

instance (s : State) : Decidable (Unlocked s) := inferInstanceAs (Decidable (_ ∧ _))

def State.moved (s : State) (i : ℕ) (phase : Phase) : State :=
  { s with holders := s.holders.set i phase }

/-- The locked block of a release, up to the call of `release_service`. -/
def releaseBlock (s : State) (i : ℕ) : State :=
  match s.count with
  | some count =>
    { s with
      count := some (release count)
      holders := s.holders.set i (if release count = 0 then .releasing else .released) }
  | none => s.moved i .released

def step (s : State) : Action → Option State
  | .request =>
    if Unlocked s then
      some { s with
        count := some (request s.count).1
        holders := s.holders ++ [.decided (request s.count).2] }
    else none
  | .proceed i =>
    match s.holders[i]? with
    | some (.decided true) => some (s.moved i .held)
    | some (.decided false) => some { s.moved i .registering with requested := true }
    | some .registering => some (s.moved i .held)
    | some .held => if Unlocked s then some (releaseBlock s i) else none
    | some .releasing => some { s.moved i .erasing with requested := false }
    | some .erasing => some { s.moved i .released with count := none }
    | some .released => none
    | none => none

def Phase.isRequesting : Phase → Bool
  | .decided _ | .registering => true
  | .held | .releasing | .erasing | .released => false

def Phase.isOutstanding : Phase → Bool
  | .decided _ | .registering | .held => true
  | .releasing | .erasing | .released => false

def inProgress (s : State) : ℕ := s.holders.countP Phase.isRequesting

def outstanding (s : State) : ℕ := s.holders.countP Phase.isOutstanding

def counted (s : State) : ℕ := (s.count.map BitVec.toNat).getD 0

/-- Less than 2 ^ 32 requests are outstanding at any time. -/
def Fits (s : State) : Action → Prop
  | .request => outstanding s + 1 < 2 ^ 32
  | .proceed _ => True

instance (s : State) (a : Action) : Decidable (Fits s a) := by
  cases a <;> unfold Fits <;> infer_instance

theorem countP_set_add {phases : List Phase} {i : ℕ} {old : Phase} (h : phases[i]? = some old)
    (new : Phase) (p : Phase → Bool) :
    (phases.set i new).countP p + (if p old then 1 else 0) =
      phases.countP p + (if p new then 1 else 0) := by
  obtain ⟨hlt, hold⟩ := List.getElem?_eq_some_iff.1 h
  have hle : (if p phases[i] then 1 else 0) ≤ phases.countP p := List.boole_getElem_le_countP hlt
  rw [List.countP_set hlt]
  rw [hold] at hle ⊢
  omega

theorem unlocked_iff (s : State) :
    Unlocked s ↔ s.holders.count .releasing = 0 ∧ s.holders.count .erasing = 0 := by
  rw [List.count_eq_zero, List.count_eq_zero]
  exact Iff.rfl

/-- The count is that of the outstanding requests. At most one release is in its locked block,
    and then nothing is outstanding. The first request has vsomeip still to call, or
    vsomeip has the service until the last release calls it. -/
structure Balanced (count : Option Count) (requested : Bool) (outstanding first releasing erasing : ℕ) :
    Prop where
  small : outstanding < 2 ^ 32
  counted : (count.map BitVec.toNat).getD 0 = outstanding
  entry : count = none ↔ outstanding = 0 ∧ releasing + erasing = 0
  locked : releasing + erasing ≤ 1
  last : 0 < releasing + erasing → outstanding = 0
  first_le : first ≤ 1 ∧ first ≤ outstanding
  requested_iff : requested = true ↔ first = 0 ∧ (0 < outstanding ∨ 0 < releasing)

section Balance
variable {count : Count} {entry : Option Count} {requested : Bool} {o f r e : ℕ}

theorem Balanced.request_first (h : Balanced none requested o f 0 0) :
    Balanced (some 1) requested (o + 1) (f + 1) 0 0 := by
  obtain ⟨ho, _⟩ := h.entry.1 rfl
  have hfirst := h.first_le
  have hrequested := h.requested_iff
  have hone : (1 : Count).toNat = 1 := rfl
  refine ⟨by omega, ?_, iff_of_false nofun (by omega), by omega, by omega, by omega, ?_⟩
  · rw [Option.map_some, Option.getD_some, hone, ho]
  · rw [hrequested]
    omega

theorem Balanced.request_more (h : Balanced (some count) requested o f 0 0) (hfits : o + 1 < 2 ^ 32) :
    Balanced (some (count + 1)) requested (o + 1) f 0 0 := by
  have hpos : o ≠ 0 := fun ho => nomatch h.entry.2 ⟨ho, rfl⟩
  have hcount : count.toNat = o := h.counted
  have hfirst := h.first_le
  have hone : (1 : Count).toNat = 1 := rfl
  refine ⟨hfits, ?_, iff_of_false nofun (by omega), by omega, by omega, by omega, ?_⟩
  · rw [Option.map_some, Option.getD_some, BitVec.toNat_add, hone]
    omega
  · rw [h.requested_iff]
    omega

theorem Balanced.call_request (h : Balanced entry requested o (f + 1) r e) :
    Balanced entry true o f r e := by
  have hfirst := h.first_le
  have hlast := h.last
  refine ⟨h.small, h.counted, h.entry, h.locked, h.last, by omega, iff_of_true rfl (by omega)⟩

theorem Balanced.release (h : Balanced (some count) requested (o + 1) f 0 0) (hf : f ≤ o) :
    Balanced (some (release count)) requested o f (if release count = 0 then 1 else 0) 0 := by
  have hsmall := h.small
  have hfirst := h.first_le
  have hcount : count.toNat = o + 1 := h.counted
  have hone : (1 : Count).toNat = 1 := rfl
  have hleft : (ServiceRequests.release count).toNat = o := by
    rw [ServiceRequests.release, if_pos (BitVec.lt_def.2 (by rw [hcount]; exact Nat.succ_pos o)),
      BitVec.toNat_sub, hone]
    omega
  have hzero : ServiceRequests.release count = 0 ↔ o = 0 := by
    rw [← BitVec.toNat_inj, hleft]
    rfl
  simp only [hzero]
  refine ⟨by omega, hleft, iff_of_false nofun ?_, ?_, ?_, by omega, ?_⟩
  · split <;> omega
  · split <;> omega
  · split <;> omega
  · rw [h.requested_iff]
    split <;> omega

theorem Balanced.call_release (h : Balanced entry requested o f (r + 1) e) :
    Balanced entry false o f r (e + 1) := by
  have hlocked := h.locked
  have hlast := h.last
  have hentry := h.entry
  refine ⟨h.small, h.counted, ?_, by omega, by omega, h.first_le,
    iff_of_false Bool.false_ne_true (by omega)⟩
  rw [hentry]
  omega

theorem Balanced.erase (h : Balanced entry requested o f r (e + 1)) : Balanced none requested o f r e := by
  have hlocked := h.locked
  have hlast := h.last
  have hsmall := h.small
  refine ⟨h.small, by simp; omega, iff_of_true rfl (by omega), by omega, by omega, h.first_le, h.requested_iff⟩

end Balance

def Kept (s : State) : Prop :=
  Balanced s.count s.requested (outstanding s) (s.holders.count (.decided false))
    (s.holders.count .releasing) (s.holders.count .erasing)

theorem kept_initial : Kept initial :=
  ⟨by decide, rfl, iff_of_true rfl ⟨rfl, rfl⟩, by decide, fun h => (by cases h), by decide, by decide⟩

section Moves
variable {s t : State} {i : ℕ} {old new : Phase}

theorem numbers_moved (h : s.holders[i]? = some old) (hmoved : t.holders = s.holders.set i new) :
    outstanding t + (if old.isOutstanding then 1 else 0) =
        outstanding s + (if new.isOutstanding then 1 else 0) ∧
      t.holders.count (.decided false) + (if old == .decided false then 1 else 0) =
        s.holders.count (.decided false) + (if new == .decided false then 1 else 0) ∧
      t.holders.count .releasing + (if old == .releasing then 1 else 0) =
        s.holders.count .releasing + (if new == .releasing then 1 else 0) ∧
      t.holders.count .erasing + (if old == .erasing then 1 else 0) =
        s.holders.count .erasing + (if new == .erasing then 1 else 0) := by
  unfold outstanding
  rw [hmoved]
  exact ⟨countP_set_add h new _, countP_set_add h new (· == .decided false),
    countP_set_add h new (· == .releasing), countP_set_add h new (· == .erasing)⟩

theorem first_le_outstanding (s : State) : s.holders.count (.decided false) ≤ outstanding s := by
  refine List.countP_mono_left fun p _ hp => ?_
  rw [beq_iff_eq.1 hp]
  rfl

end Moves

theorem kept_request {s : State} (h : Kept s) (hunlocked : Unlocked s) (hfits : Fits s .request) :
    Kept { s with
      count := some (request s.count).1
      holders := s.holders ++ [.decided (request s.count).2] } := by
  obtain ⟨hrel, her⟩ := (unlocked_iff s).1 hunlocked
  unfold Kept at h ⊢
  unfold outstanding
  simp only [List.countP_append, List.count_append, hrel, her] at h ⊢
  cases hcount : s.count with
  | none =>
    rw [hcount] at h
    exact h.request_first
  | some count =>
    rw [hcount] at h
    exact h.request_more hfits

theorem kept_of_numbers {t : State} {count : Option Count} {requested : Bool} {o f r e : ℕ}
    (h : Balanced count requested o f r e) (hcount : t.count = count)
    (hrequested : t.requested = requested) (ho : outstanding t = o)
    (hf : t.holders.count (.decided false) = f) (hr : t.holders.count .releasing = r)
    (he : t.holders.count .erasing = e) : Kept t := by
  unfold Kept
  rw [hcount, hrequested, ho, hf, hr, he]
  exact h

theorem kept_release {s : State} {i : ℕ} (h : Kept s) (hunlocked : Unlocked s)
    (hi : s.holders[i]? = some .held) : Kept (releaseBlock s i) := by
  obtain ⟨hrel, her⟩ := (unlocked_iff s).1 hunlocked
  have hpos : 0 < outstanding s :=
    List.countP_pos_iff.2 ⟨.held, List.mem_of_getElem? hi, rfl⟩
  unfold Kept at h
  rw [hrel, her] at h
  cases hcount : s.count with
  | none =>
    rw [hcount] at h
    exact absurd (h.entry.1 rfl).1 (Nat.ne_of_gt hpos)
  | some count =>
    rw [hcount] at h
    unfold releaseBlock
    rw [hcount]
    dsimp only
    by_cases hzero : release count = 0
    · rw [if_pos hzero]
      obtain ⟨ho, hf, hr, he⟩ := numbers_moved (t := s.moved i .releasing) hi rfl
      have hle := first_le_outstanding (s.moved i .releasing)
      have hone : outstanding s = outstanding (s.moved i .releasing) + 1 := ho.symm
      have hfirst : (s.moved i .releasing).holders.count (.decided false) =
        s.holders.count (.decided false) := hf
      rw [hone, ← hfirst] at h
      have hbalanced := h.release hle
      rw [if_pos hzero] at hbalanced
      exact kept_of_numbers hbalanced rfl rfl rfl rfl (hr.trans (by rw [hrel]; rfl))
        (he.trans (by rw [her]; rfl))
    · rw [if_neg hzero]
      obtain ⟨ho, hf, hr, he⟩ := numbers_moved (t := s.moved i .released) hi rfl
      have hle := first_le_outstanding (s.moved i .released)
      have hone : outstanding s = outstanding (s.moved i .released) + 1 := ho.symm
      have hfirst : (s.moved i .released).holders.count (.decided false) =
        s.holders.count (.decided false) := hf
      rw [hone, ← hfirst] at h
      have hbalanced := h.release hle
      rw [if_neg hzero] at hbalanced
      exact kept_of_numbers hbalanced rfl rfl rfl rfl (hr.trans (by rw [hrel]; rfl))
        (he.trans (by rw [her]; rfl))

theorem kept_step {s t : State} {a : Action} (h : Kept s) (hfits : Fits s a)
    (hstep : step s a = some t) : Kept t := by
  cases a with
  | request =>
    dsimp only [step] at hstep
    split at hstep
    · next hunlocked =>
      cases hstep
      exact kept_request h hunlocked hfits
    · cases hstep
  | proceed i =>
    dsimp only [step] at hstep
    split at hstep
    · next hi =>
      cases hstep
      obtain ⟨ho, hf, hr, he⟩ := numbers_moved (t := s.moved i .held) hi rfl
      exact kept_of_numbers h rfl rfl (Nat.add_right_cancel ho) hf hr he
    · next hi =>
      cases hstep
      obtain ⟨ho, hf, hr, he⟩ := numbers_moved (t := s.moved i .registering) hi rfl
      have hfirst : s.holders.count (.decided false) =
        (s.moved i .registering).holders.count (.decided false) + 1 := hf.symm
      unfold Kept at h
      rw [hfirst] at h
      exact kept_of_numbers h.call_request rfl rfl (Nat.add_right_cancel ho) rfl hr he
    · next hi =>
      cases hstep
      obtain ⟨ho, hf, hr, he⟩ := numbers_moved (t := s.moved i .held) hi rfl
      exact kept_of_numbers h rfl rfl (Nat.add_right_cancel ho) hf hr he
    · next hi =>
      split at hstep
      · next hunlocked =>
        cases hstep
        exact kept_release h hunlocked hi
      · cases hstep
    · next hi =>
      cases hstep
      obtain ⟨ho, hf, hr, he⟩ := numbers_moved (t := s.moved i .erasing) hi rfl
      have hcalled : s.holders.count .releasing =
        (s.moved i .erasing).holders.count .releasing + 1 := hr.symm
      unfold Kept at h
      rw [hcalled] at h
      exact kept_of_numbers h.call_release rfl rfl ho hf rfl he
    · next hi =>
      cases hstep
      obtain ⟨ho, hf, hr, he⟩ := numbers_moved (t := s.moved i .released) hi rfl
      have herased : s.holders.count .erasing =
        (s.moved i .released).holders.count .erasing + 1 := he.symm
      unfold Kept at h
      rw [herased] at h
      exact kept_of_numbers h.erase rfl rfl ho hf hr rfl
    · cases hstep
    · cases hstep

/-- vsomeip's `release_service` is called when nothing is outstanding. Where no request is in
    progress and no release is about to call vsomeip, vsomeip has the service exactly if
    the count is positive and is that of the holders. -/
theorem requests_counted {s : State} (h : Reachable step Fits initial s) :
    (Phase.releasing ∈ s.holders → outstanding s = 0) ∧
      (inProgress s = 0 → Phase.releasing ∉ s.holders →
        (s.requested = true ↔ 0 < counted s ∧ counted s = outstanding s)) := by
  have hkept : Kept s := h.invariant kept_initial fun _ _ _ => kept_step
  constructor
  · intro hreleasing
    have hpos : 0 < s.holders.count .releasing := List.count_pos_iff.2 hreleasing
    exact hkept.last (by omega)
  · intro hprogress hreleasing
    have hfirst : s.holders.count (.decided false) = 0 := by
      refine List.count_eq_zero.2 fun hmem => ?_
      have hnone := List.countP_eq_zero.1 hprogress _ hmem
      exact hnone rfl
    have hcounted : counted s = outstanding s := hkept.counted
    rw [hkept.requested_iff, hfirst, List.count_eq_zero.2 hreleasing, hcounted]
    omega

/-- The second request is made and released before the first one has called vsomeip. -/
theorem overlapping_counted :
    ∃ s, run step initial [.request, .request, .proceed 1, .proceed 1, .proceed 0, .proceed 0] =
        some s ∧ inProgress s = 0 ∧ s.requested = true ∧ 0 < counted s ∧ counted s = outstanding s := by
  refine ⟨_, rfl, rfl, rfl, ?_⟩
  exact ((requests_counted (.of_run
    [.request, .request, .proceed 1, .proceed 1, .proceed 0, .proceed 0] (by decide) rfl)).2
    rfl (by decide)).1 rfl

theorem requests_run (n : ℕ) :
    run step initial (List.replicate (n + 1) .request) =
      some ⟨some (BitVec.ofNat 32 (n + 1)), .decided false :: List.replicate n (.decided true), false⟩ := by
  induction n with
  | zero => rfl
  | succ n ih =>
    rw [List.replicate_succ', run_append, ih]
    have hunlocked : Unlocked ⟨some (BitVec.ofNat 32 (n + 1)),
        .decided false :: List.replicate n (.decided true), false⟩ := by
      simp [Unlocked, List.mem_replicate]
    change (if Unlocked _ then _ else none).bind _ = _
    rw [if_pos hunlocked]
    have hcount : BitVec.ofNat 32 (n + 1) + 1 = BitVec.ofNat 32 (n + 1 + 1) := by
      rw [BitVec.ofNat_add (n + 1) 1]
      rfl
    rw [List.replicate_succ']
    exact congrArg (fun count => some (State.mk (some count) _ _)) hcount

/-- The holder of the first request releases a count that has wrapped around. -/
theorem wrapped_run {n : ℕ} (hn : n + 1 = 2 ^ 32) :
    Reachable step Free initial ⟨some 0, .releasing :: List.replicate n (.decided true), true⟩ := by
  have hzero : BitVec.ofNat 32 (n + 1) = 0 := by rw [hn]; rfl
  have hmany := reachable_of_run (requests_run n)
  rw [hzero] at hmany
  have hunlocked : Unlocked ⟨some 0, .held :: List.replicate n (.decided true), true⟩ := by
    simp [Unlocked, List.mem_replicate]
  have hheld : Reachable step Free initial
      ⟨some 0, .held :: List.replicate n (.decided true), true⟩ :=
    (hmany.next (a := .proceed 0) trivial rfl).next (a := .proceed 0) trivial rfl
  exact hheld.next (a := .proceed 0) trivial (if_pos hunlocked)

/-- After 2 ^ 32 requests the count is zero, and the first release calls vsomeip. Between its
    block and this call the service is requested with a count of zero. -/
theorem wrapped_count_released :
    (¬ ∀ s, Reachable step Free initial s → Phase.releasing ∈ s.holders → outstanding s = 0) ∧
    ¬ ∀ s, Reachable step Free initial s → inProgress s = 0 →
      (s.requested = true ↔ 0 < counted s ∧ counted s = outstanding s) := by
  constructor
  · intro h
    have hout : ∀ n, outstanding ⟨some 0, .releasing :: List.replicate n (.decided true), true⟩ = n :=
      fun n => by simp [outstanding, Phase.isOutstanding, List.countP_replicate]
    have hnone := h _ (wrapped_run (n := 2 ^ 32 - 1) (by norm_num)) List.mem_cons_self
    rw [hout] at hnone
    norm_num at hnone
  · intro h
    have hone : Reachable step Free initial ⟨some 0, [.releasing], true⟩ :=
      Reachable.of_run [.request, .proceed 0, .proceed 0, .proceed 0] (meets_free _ _) rfl
    have hfalse := ((h _ hone rfl).1 rfl).1
    cases hfalse

end SomeIPRuntime.ServiceRequests
