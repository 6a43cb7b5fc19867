import SomeIPRuntime.Address
import SomeIPRuntime.Mirroring
import SomeIPRuntime.StepSystems

set_option autoImplicit false

/-!
# Requests of events

`requestEvent` counts the requests of an event under the eventgroup it is given,
`releaseEvent` counts down under every eventgroup that has the event. Both decide under
`requestedEventsMutex_` whether vsomeip has to be called, and call it when the mutex has
been released.
-/
namespace SomeIPRuntime.EventRequests
open StepSystems Mirroring

abbrev Event := ServiceId × InstanceId × EventId
abbrev Count := BitVec 32

abbrev Counts := List (EventgroupId × Count)

def increment (eventGroup : EventgroupId) : Counts → Option Counts
  | [] => none
  | (group, count) :: counts =>
    if group = eventGroup then some ((group, count + 1) :: counts)
    else (increment eventGroup counts).map fun rest => (group, count) :: rest

def decrement (count : Count) : Count :=
  if 0 < count then count - 1 else count

def remaining (counts : Counts) : Counts :=
  (counts.map fun c => (c.1, decrement c.2)).filter fun c => c.2 ≠ 0

def IsLast (counts : Counts) : Prop :=
  ∃ c ∈ counts, decrement c.2 = 0

instance (counts : Counts) : Decidable (IsLast counts) := List.decidableBEx _ counts

/-- The count of the eventgroup does not wrap around when it goes up. -/
def Fits (eventGroup : EventgroupId) (counts : Counts) : Prop :=
  ∀ c ∈ counts, c.1 = eventGroup → c.2 ≠ BitVec.allOnes 32

instance (eventGroup : EventgroupId) (counts : Counts) : Decidable (Fits eventGroup counts) :=
  List.decidableBAll _ counts

/-- The nested tables have no empty inner tables, and are kept by event. `requests` and
    `releases` are how many there have been, `calls` are decided and still to be made, and
    `requested` is what vsomeip has. -/
structure State where
  requestedEvents : Event → Counts
  requests : Event → ℕ
  releases : Event → ℕ
  calls : List (Event × Op Unit)
  requested : Finset Event

def initial : State := ⟨fun _ => [], fun _ => 0, fun _ => 0, [], ∅⟩

inductive Action
  | requestEvent (event : Event) (eventGroup : EventgroupId)
  | releaseEvent (event : Event)
  /-- a call to vsomeip: `request_event` or `release_event` -/
  | call (event : Event) (op : Op Unit)

def requestEvent (event : Event) (eventGroup : EventgroupId) (s : State) : State :=
  let s := { s with requests := Function.update s.requests event (s.requests event + 1) }
  match increment eventGroup (s.requestedEvents event) with
  | some counts => { s with requestedEvents := Function.update s.requestedEvents event counts }
  | none =>
    { s with
      requestedEvents :=
        Function.update s.requestedEvents event ((eventGroup, 1) :: s.requestedEvents event)
      calls := s.calls ++ [(event, .add ())] }

def releaseEvent (event : Event) (s : State) : State :=
  let left := remaining (s.requestedEvents event)
  { s with
    requestedEvents := Function.update s.requestedEvents event left
    releases := Function.update s.releases event (s.releases event + 1)
    calls := if IsLast (s.requestedEvents event) then s.calls ++ [(event, .remove ())] else s.calls }

def makeCall (event : Event) (op : Op Unit) (s : State) : State :=
  { s with
    calls := made event op s.calls
    requested := match op with
      | .add () => insert event s.requested
      | .remove () => s.requested.erase event }

def step (s : State) : Action → Option State
  | .requestEvent event eventGroup => some (requestEvent event eventGroup s)
  | .releaseEvent event =>
    if s.releases event < s.requests event then some (releaseEvent event s) else none
  | .call event op => if (event, op) ∈ s.calls then some (makeCall event op s) else none

/-- What vsomeip is asked to release is requested by nobody; and where no call is in progress,
    vsomeip has the events with more requests than releases. -/
structure Mirrored (ok : State → Action → Prop) (s : State) : Prop where
  unneeded : ∀ event, (event, .remove ()) ∈ s.calls → ok s (.call event (.remove ())) →
    s.requests event ≤ s.releases event
  quiet : s.calls = [] → ∀ event, event ∈ s.requested ↔ s.releases event < s.requests event

/-- No request is made while its event is still to be released at vsomeip, and no count wraps
    around. A count comes to zero only where the event is counted under no other eventgroup.
    The calls for an event reach vsomeip in the order in which they were decided. -/
def Ordered (s : State) : Action → Prop
  | .requestEvent event eventGroup =>
    (event, .remove ()) ∉ s.calls ∧ Fits eventGroup (s.requestedEvents event)
  | .releaseEvent event =>
    IsLast (s.requestedEvents event) → (s.requestedEvents event).length = 1
  | .call event op => IsNext event op s.calls

instance (s : State) (a : Action) : Decidable (Ordered s a) := by
  cases a <;> unfold Ordered <;> infer_instance

def total (counts : Counts) : ℕ := (counts.map fun c => c.2.toNat).sum

/-- No count is zero. The counts of one eventgroup are the requests that are outstanding, those
    of several eventgroups are not more. -/
structure Counted (counts : Counts) (outstanding : ℕ) : Prop where
  positive : ∀ c ∈ counts, 0 < c.2.toNat
  total_le : total counts ≤ outstanding
  alone : counts.length ≤ 1 → total counts = outstanding

theorem total_cons (c : EventgroupId × Count) (counts : Counts) :
    total (c :: counts) = c.2.toNat + total counts := rfl

theorem total_pos {c : EventgroupId × Count} {counts : Counts} (hmem : c ∈ counts)
    (hpos : 0 < c.2.toNat) : 0 < total counts := by
  induction counts with
  | nil => cases hmem
  | cons d counts ih =>
    rw [total_cons]
    cases hmem with
    | head => omega
    | tail _ hmem =>
      have := ih hmem
      omega

theorem Counted.nonempty_iff {counts : Counts} {outstanding : ℕ} (h : Counted counts outstanding) :
    counts ≠ [] ↔ 0 < outstanding := by
  refine ⟨fun hne => ?_, fun hpos hnil => ?_⟩
  · obtain ⟨c, hmem⟩ := List.exists_mem_of_ne_nil counts hne
    exact lt_of_lt_of_le (total_pos hmem (h.positive c hmem)) h.total_le
  · subst hnil
    have hzero := h.alone (Nat.zero_le 1)
    change 0 = outstanding at hzero
    omega

theorem increment_counted {eventGroup : EventgroupId} {counts after : Counts}
    (hinc : increment eventGroup counts = some after)
    (hwrap : Fits eventGroup counts)
    (hpos : ∀ c ∈ counts, 0 < c.2.toNat) :
    after.length = counts.length ∧ total after = total counts + 1 ∧ ∀ c ∈ after, 0 < c.2.toNat := by
  induction counts generalizing after with
  | nil => cases hinc
  | cons c counts ih =>
    obtain ⟨group, count⟩ := c
    unfold increment at hinc
    split at hinc
    · rename_i hgroup
      cases hinc
      have hne := hwrap _ List.mem_cons_self hgroup
      have hsucc : (count + 1).toNat = count.toNat + 1 := by
        have hlt := count.isLt
        have : count.toNat ≠ (BitVec.allOnes 32).toNat := fun heq => hne (BitVec.eq_of_toNat_eq heq)
        rw [BitVec.toNat_allOnes] at this
        rw [BitVec.toNat_add]
        change (count.toNat + 1) % 2 ^ 32 = count.toNat + 1
        omega
      refine ⟨rfl, ?_, fun c hc => ?_⟩
      · rw [total_cons, total_cons]
        change (count + 1).toNat + _ = count.toNat + _ + 1
        omega
      · cases hc with
        | head => exact hsucc ▸ Nat.succ_pos _
        | tail _ hc => exact hpos c (List.mem_cons_of_mem _ hc)
    · obtain ⟨rest, hrest, heq⟩ := Option.map_eq_some_iff.1 hinc
      subst heq
      obtain ⟨hlength, htotal, hall⟩ := ih hrest (fun c hc => hwrap c (List.mem_cons_of_mem _ hc))
        fun c hc => hpos c (List.mem_cons_of_mem _ hc)
      refine ⟨by rw [List.length_cons, List.length_cons, hlength], ?_, fun c hc => ?_⟩
      · rw [total_cons, total_cons, htotal]
        omega
      · cases hc with
        | head => exact hpos _ List.mem_cons_self
        | tail _ hc => exact hall c hc

theorem increment_ne_nil {eventGroup : EventgroupId} {counts after : Counts}
    (hinc : increment eventGroup counts = some after) : counts ≠ [] ∧ after ≠ [] := by
  cases counts with
  | nil => cases hinc
  | cons c counts =>
    refine ⟨List.cons_ne_nil _ _, fun hnil => ?_⟩
    obtain ⟨group, count⟩ := c
    unfold increment at hinc
    split at hinc
    · cases hinc
      cases hnil
    · obtain ⟨rest, -, heq⟩ := Option.map_eq_some_iff.1 hinc
      rw [hnil] at heq
      cases heq

theorem decrement_toNat {count : Count} (hpos : 0 < count.toNat) :
    (decrement count).toNat + 1 = count.toNat := by
  have hlt : 0 < count := BitVec.lt_def.2 hpos
  unfold decrement
  rw [if_pos hlt, BitVec.toNat_sub_of_le (by rw [BitVec.le_def]; exact hpos)]
  exact Nat.sub_add_cancel hpos

theorem remaining_counted {counts : Counts} (hpos : ∀ c ∈ counts, 0 < c.2.toNat)
    (hlast : ¬ IsLast counts) :
    (remaining counts).length = counts.length ∧
      total (remaining counts) + counts.length = total counts ∧
      ∀ c ∈ remaining counts, 0 < c.2.toNat := by
  induction counts with
  | nil => exact ⟨rfl, rfl, fun c hc => (by cases hc)⟩
  | cons c counts ih =>
    have hzero : decrement c.2 ≠ 0 := fun hzero => hlast ⟨c, List.mem_cons_self, hzero⟩
    obtain ⟨hlength, htotal, hall⟩ := ih (fun d hd => hpos d (List.mem_cons_of_mem _ hd))
      fun ⟨d, hd, hdec⟩ => hlast ⟨d, List.mem_cons_of_mem _ hd, hdec⟩
    have hcons : remaining (c :: counts) = (c.1, decrement c.2) :: remaining counts := by
      unfold remaining
      rw [List.map_cons, List.filter_cons_of_pos (by simpa using hzero)]
    rw [hcons]
    refine ⟨by rw [List.length_cons, List.length_cons, hlength], ?_, fun d hd => ?_⟩
    · have hdec := decrement_toNat (hpos c List.mem_cons_self)
      rw [total_cons, total_cons, List.length_cons]
      change (decrement c.2).toNat + _ + _ = _
      omega
    · cases hd with
      | head => exact Nat.pos_of_ne_zero fun h => hzero (BitVec.eq_of_toNat_eq h)
      | tail _ hd => exact hall d hd

/-- The last release of an event that is counted under one eventgroup. -/
theorem last_counted {counts : Counts} {outstanding : ℕ} (h : Counted counts outstanding)
    (hlast : IsLast counts) (hone : counts.length = 1) : remaining counts = [] ∧ outstanding = 1 := by
  obtain ⟨c, rfl⟩ := List.length_eq_one_iff.1 hone
  obtain ⟨d, hd, hzero⟩ := hlast
  rw [List.mem_singleton.1 hd] at hzero
  have hdec := decrement_toNat (h.positive c List.mem_cons_self)
  have htotal := h.alone (le_of_eq hone)
  rw [hzero] at hdec
  change c.2.toNat = outstanding at htotal
  refine ⟨?_, by rw [← htotal, ← hdec]; rfl⟩
  unfold remaining
  rw [List.map_singleton, List.filter_cons_of_neg (by simpa using hzero), List.filter_nil]

section Invariant
variable {s t : State}

def view (s : State) (event : Event) : View Unit :=
  ⟨s.requestedEvents event ≠ [], fun _ => event ∈ s.requested, callsFor event s.calls⟩

structure GoodAt (s : State) (event : Event) : Prop where
  matched : s.releases event ≤ s.requests event
  counted : Counted (s.requestedEvents event) (s.requests event - s.releases event)
  mirrors : Mirrors (view s event)
  waiting : (event, .remove ()) ∈ s.calls → s.requestedEvents event = []

def Good (s : State) : Prop := ∀ event, GoodAt s event

theorem GoodAt.held_iff {event : Event} (h : GoodAt s event) :
    s.requestedEvents event ≠ [] ↔ s.releases event < s.requests event := by
  rw [h.counted.nonempty_iff]
  exact Nat.sub_pos_iff_lt

theorem Good.mirrored (h : Good s) : Mirrored Ordered s where
  unneeded event hmem _ := by
    by_contra hlt
    exact (h event).held_iff.2 (Nat.lt_of_not_le hlt) ((h event).waiting hmem)
  quiet hcalls event := by
    rw [← (h event).held_iff]
    refine Iff.trans ?_ ((h event).mirrors.quiet (callsFor_of_nil hcalls)).symm
    exact ⟨fun hmem => ⟨(), hmem⟩, fun ⟨_, hmem⟩ => hmem⟩

theorem initial_good : Good initial := fun _ =>
  { matched := le_refl 0
    counted := ⟨fun _ hc => (by cases hc), le_refl 0, fun _ => rfl⟩
    mirrors := mirrors_nothing (fun hne => hne rfl) (fun _ => Finset.notMem_empty _) rfl
    waiting := fun _ => rfl }

theorem goodAt_of {event : Event} {counts : Counts} {m n : ℕ}
    (hcounts : t.requestedEvents event = counts) (hrequests : t.requests event = m)
    (hreleases : t.releases event = n) (hmatched : n ≤ m) (hcounted : Counted counts (m - n))
    (hmirrors : Mirrors (view t event))
    (hwaiting : (event, .remove ()) ∈ t.calls → counts = []) : GoodAt t event := by
  subst hcounts hrequests hreleases
  exact ⟨hmatched, hcounted, hmirrors, hwaiting⟩

theorem GoodAt.same {event : Event} (h : GoodAt s event)
    (hcounts : t.requestedEvents event = s.requestedEvents event)
    (hrequests : t.requests event = s.requests event)
    (hreleases : t.releases event = s.releases event)
    (hcalls : callsFor event t.calls = callsFor event s.calls)
    (hfar : event ∈ t.requested ↔ event ∈ s.requested) : GoodAt t event where
  matched := by rw [hrequests, hreleases]; exact h.matched
  counted := by rw [hcounts, hrequests, hreleases]; exact h.counted
  mirrors := h.mirrors.same (by unfold view; rw [hcounts]) hcalls fun _ => hfar
  waiting hmem := by
    rw [hcounts]
    refine h.waiting (mem_callsFor.1 ?_)
    rw [← hcalls]
    exact mem_callsFor.2 hmem

theorem request_good (h : Good s) (event : Event) (eventGroup : EventgroupId)
    (hok : Ordered s (.requestEvent event eventGroup)) : Good (requestEvent event eventGroup s) := by
  intro e
  have hmatched := (h event).matched
  have hcounted := (h event).counted
  have hsucc : s.requests event + 1 - s.releases event = s.requests event - s.releases event + 1 := by
    omega
  unfold requestEvent
  dsimp only
  split
  · rename_i counts hinc
    by_cases he : e = event
    · subst he
      obtain ⟨hlength, htotal, hpos⟩ := increment_counted hinc hok.2 hcounted.positive
      obtain ⟨hbefore, hafter⟩ := increment_ne_nil hinc
      refine goodAt_of (Function.update_self _ _ _) (Function.update_self _ _ _) rfl
        (Nat.le_succ_of_le hmatched) ⟨hpos, ?_, fun hone => ?_⟩
        ((h e).mirrors.same (iff_of_true (fun hnil => hafter ?_) hbefore) rfl fun _ => Iff.rfl)
        fun hmem => absurd hmem hok.1
      · rw [htotal, hsucc]
        exact Nat.succ_le_succ hcounted.total_le
      · rw [htotal, hsucc, hcounted.alone (hlength ▸ hone)]
      · exact (Function.update_self e counts s.requestedEvents).symm.trans hnil
    · exact (h e).same (Function.update_of_ne he _ _) (Function.update_of_ne he _ _) rfl rfl Iff.rfl
  · by_cases he : e = event
    · subst he
      refine goodAt_of (Function.update_self _ _ _) (Function.update_self _ _ _) rfl
        (Nat.le_succ_of_le hmatched) ⟨fun c hc => ?_, ?_, fun hone => ?_⟩
        ((h e).mirrors.adds (a := ()) (fun hheld => ((h e).mirrors.held_latest hheld).choose_spec)
          (fun hnil => ?_) (callsFor_decided_self _ _ _) fun _ => Iff.rfl) fun hmem => ?_
      · cases hc with
        | head => exact Nat.zero_lt_one
        | tail _ hc => exact hcounted.positive c hc
      · rw [total_cons, Nat.add_comm, hsucc]
        exact Nat.succ_le_succ hcounted.total_le
      · rw [total_cons, Nat.add_comm, hsucc, hcounted.alone (Nat.le_of_succ_le hone)]
        rfl
      · exact List.cons_ne_nil _ _ ((Function.update_self e _ s.requestedEvents).symm.trans hnil)
      · exact absurd ((List.mem_append.1 hmem).resolve_right (by simp)) hok.1
    · exact (h e).same (Function.update_of_ne he _ _) (Function.update_of_ne he _ _) rfl
        (callsFor_decided_ne (Ne.symm he) _ _) Iff.rfl

theorem release_good (h : Good s) {event : Event} (hlt : s.releases event < s.requests event)
    (hok : Ordered s (.releaseEvent event)) : Good (releaseEvent event s) := by
  intro e
  have hcounted := (h event).counted
  have hheld := (h event).held_iff.2 hlt
  have hnot : (event, .remove ()) ∉ s.calls := fun hmem => hheld ((h event).waiting hmem)
  unfold releaseEvent
  dsimp only
  split
  · rename_i hlast
    by_cases he : e = event
    · subst he
      obtain ⟨hnil, hone⟩ := last_counted hcounted hlast (hok hlast)
      have hzero : s.requests e - (s.releases e + 1) = 0 := by omega
      refine goodAt_of ((Function.update_self _ _ _).trans hnil) rfl (Function.update_self _ _ _) hlt ?_
        ((h e).mirrors.removes ((h e).mirrors.held_latest hheld).choose_spec (fun hne => hne ?_)
          (callsFor_decided_self _ _ _) fun _ => Iff.rfl) fun _ => rfl
      · rw [hzero]
        exact ⟨fun _ hc => (by cases hc), le_refl 0, fun _ => rfl⟩
      · exact (Function.update_self _ _ _).trans hnil
    · exact (h e).same (Function.update_of_ne he _ _) rfl (Function.update_of_ne he _ _)
        (callsFor_decided_ne (Ne.symm he) _ _) Iff.rfl
  · rename_i hlast
    by_cases he : e = event
    · subst he
      obtain ⟨hlength, htotal, hpos⟩ := remaining_counted hcounted.positive hlast
      have hne : 0 < (s.requestedEvents e).length := List.length_pos_of_ne_nil hheld
      have hle := hcounted.total_le
      refine goodAt_of (m := s.requests e) (Function.update_self _ _ _) rfl (Function.update_self _ _ _)
        hlt ⟨hpos, by omega, fun hone => ?_⟩
        ((h e).mirrors.same (iff_of_true (fun hnil => ?_) hheld) rfl fun _ => Iff.rfl)
        fun hmem => absurd hmem hnot
      · have := hcounted.alone (hlength ▸ hone)
        omega
      · have hnone := (Function.update_self e _ s.requestedEvents).symm.trans hnil
        rw [hnone] at hlength
        exact absurd hlength.symm hne.ne'
    · exact (h e).same (Function.update_of_ne he _ _) rfl (Function.update_of_ne he _ _) rfl Iff.rfl

theorem call_good (h : Good s) {event : Event} {op : Op Unit} (hnext : IsNext event op s.calls) :
    Good (makeCall event op s) := by
  intro e
  by_cases he : e = event
  · subst he
    refine ⟨(h e).matched, (h e).counted, ?_, fun hmem => (h e).waiting (mem_of_made hmem)⟩
    cases op with
    | add _ =>
      refine (h e).mirrors.added hnext.callsFor Iff.rfl hnext.made fun b => ?_
      change e ∈ insert e s.requested ↔ e ∈ s.requested ∨ b = ()
      simp
    | remove _ =>
      refine (h e).mirrors.removed hnext.callsFor Iff.rfl hnext.made fun b => ?_
      change e ∈ s.requested.erase e ↔ e ∈ s.requested ∧ b ≠ ()
      simp
  · refine (h e).same rfl rfl rfl (callsFor_made_ne (Ne.symm he) _ _) ?_
    cases op with
    | add _ => exact Finset.mem_insert.trans ⟨fun hmem => hmem.resolve_left he, Or.inr⟩
    | remove _ => exact Finset.mem_erase.trans ⟨And.right, fun hmem => ⟨he, hmem⟩⟩

theorem step_good {a : Action} (h : Good s) (hok : Ordered s a) (hstep : step s a = some t) :
    Good t := by
  cases a with
  | requestEvent event eventGroup =>
    cases hstep
    exact request_good h event eventGroup hok
  | releaseEvent event =>
    change (if s.releases event < s.requests event then _ else _) = _ at hstep
    split at hstep
    · rename_i hlt
      cases hstep
      exact release_good h hlt hok
    · cases hstep
  | call event op =>
    change (if (event, op) ∈ s.calls then _ else _) = _ at hstep
    split at hstep
    · cases hstep
      exact call_good h hok
    · cases hstep

/-- In every run of ordered steps vsomeip mirrors the events that are requested. -/
theorem requests_mirrored (h : Reachable step Ordered initial s) : Mirrored Ordered s :=
  (h.invariant initial_good fun _ _ _ => step_good).mirrored

end Invariant

def oneGroup : List Action :=
  [.requestEvent (1, 1, 0x8001) 1, .requestEvent (1, 1, 0x8001) 1, .releaseEvent (1, 1, 0x8001),
    .call (1, 1, 0x8001) (.add ()), .releaseEvent (1, 1, 0x8001)]

theorem one_group_mirrored : ∃ s, run step initial oneGroup = some s ∧ Mirrored Ordered s := by
  exact ⟨_, rfl, requests_mirrored (.of_run oneGroup (by decide) rfl)⟩

def twoGroups : List Action :=
  [.requestEvent (1, 1, 0x8001) 1, .call (1, 1, 0x8001) (.add ()), .requestEvent (1, 1, 0x8001) 2,
    .call (1, 1, 0x8001) (.add ()), .releaseEvent (1, 1, 0x8001)]

theorem two_groups_released : ¬ ∀ s, Reachable step Free initial s → Mirrored Free s := by
  intro h
  obtain ⟨s, hrun, hmem, hlt⟩ : ∃ s, run step initial twoGroups = some s ∧
      ((1, 1, 0x8001), .remove ()) ∈ s.calls ∧ s.releases (1, 1, 0x8001) < s.requests (1, 1, 0x8001) :=
    ⟨_, rfl, by decide, by decide⟩
  exact absurd ((h s (reachable_of_run hrun)).unneeded _ hmem trivial) (Nat.not_le_of_lt hlt)

/-- A new first request is overtaken by the release that was decided before it. -/
example : ∃ s, run step initial
    [.requestEvent (1, 1, 0x8001) 1, .call (1, 1, 0x8001) (.add ()), .releaseEvent (1, 1, 0x8001),
      .requestEvent (1, 1, 0x8001) 1, .call (1, 1, 0x8001) (.add ()),
      .call (1, 1, 0x8001) (.remove ())] = some s ∧
    s.calls = [] ∧ (1, 1, 0x8001) ∉ s.requested ∧ s.requests (1, 1, 0x8001) = 2 ∧
    s.releases (1, 1, 0x8001) = 1 :=
  ⟨_, rfl, by decide, by decide, by decide, by decide⟩

end SomeIPRuntime.EventRequests
