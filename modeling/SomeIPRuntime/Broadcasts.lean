import Mathlib.Tactic
import SomeIPRuntime.StepSystems

set_option autoImplicit false

namespace SomeIPRuntime.Broadcasts
open StepSystems

/-- `queue` is what is still to be passed on, the oldest first. `passes` are the calls that each pass is
    still to make, `told` those that were made. What came in is recorded, and what came in for a key
    since a subscriber has joined. -/
structure Channel (κ σ ν : Type) where
  queue : List ν
  passes : List (List (σ × ν))
  told : List (σ × ν)
  received : List ν
  since : κ → σ → List ν

section Operations
variable {κ σ ν : Type} [DecidableEq σ] (concerns : κ → ν → Prop)
  [∀ key, DecidablePred (concerns key)]

def Channel.initial : Channel κ σ ν := ⟨[], [], [], [], fun _ _ => []⟩

def Channel.enter (notification : ν) (c : Channel κ σ ν) : Channel κ σ ν :=
  { c with
    received := c.received ++ [notification]
    since := fun key subscriber =>
      if concerns key notification then c.since key subscriber ++ [notification] else c.since key subscriber }

def Channel.push (notification : ν) (c : Channel κ σ ν) : Channel κ σ ν :=
  { c with queue := c.queue ++ [notification] }

def Channel.pass (subscribers : List σ) (notification : ν) (c : Channel κ σ ν) : Channel κ σ ν :=
  { c with passes := c.passes ++ [subscribers.map fun subscriber => (subscriber, notification)] }

def Channel.tell (isAlive : σ → Bool) (i : ℕ) (c : Channel κ σ ν) : Option (Channel κ σ ν) :=
  match c.passes[i]? with
  | some ((subscriber, notification) :: rest) =>
    some { c with
      passes := c.passes.set i rest
      told := if isAlive subscriber then c.told ++ [(subscriber, notification)] else c.told }
  | _ => none

def Channel.join [DecidableEq κ] (key : κ) (subscriber : σ) (c : Channel κ σ ν) : Channel κ σ ν :=
  { c with since := fun other one => if other = key ∧ one = subscriber then [] else c.since other one }

def Channel.IsTurn (i : ℕ) (c : Channel κ σ ν) : Prop :=
  ∀ first ∈ c.passes[i]?.bind List.head?, ∀ call ∈ (c.passes.take i).flatten, call.1 ≠ first.1

instance (i : ℕ) (c : Channel κ σ ν) : Decidable (c.IsTurn i) := by
  unfold Channel.IsTurn
  infer_instance

def forKey (key : κ) (notifications : List ν) : List ν :=
  notifications.filter fun notification => concerns key notification

def forSubscriber (key : κ) (subscriber : σ) (calls : List (σ × ν)) : List ν :=
  (calls.filter fun call => call.1 = subscriber ∧ concerns key call.2).map Prod.snd

def Channel.onTheWay (key : κ) (subscriber : σ) (c : Channel κ σ ν) : List ν :=
  forSubscriber concerns key subscriber c.passes.flatten ++ forKey concerns key c.queue

def Channel.deliveries (key : κ) (subscriber : σ) (c : Channel κ σ ν) : List ν :=
  forSubscriber concerns key subscriber c.told ++ c.onTheWay concerns key subscriber

/-- Nothing is passed on twice or in another order, and who is subscribed gets all that has come in
    since. -/
structure Faithful (subscribed : κ → σ → Prop) (c : Channel κ σ ν) : Prop where
  once : ∀ key subscriber, (c.deliveries concerns key subscriber).Sublist (forKey concerns key c.received)
  complete : ∀ key subscriber, subscribed key subscriber →
    c.since key subscriber <:+ c.deliveries concerns key subscriber

end Operations

section Calls
variable {κ σ ν : Type} [DecidableEq σ] {concerns : κ → ν → Prop}
  [∀ key, DecidablePred (concerns key)] {key : κ} {subscriber : σ}

theorem forSubscriber_append (calls later : List (σ × ν)) :
    forSubscriber concerns key subscriber (calls ++ later) =
      forSubscriber concerns key subscriber calls ++ forSubscriber concerns key subscriber later := by
  unfold forSubscriber
  rw [List.filter_append, List.map_append]

theorem forKey_append (notifications later : List ν) :
    forKey concerns key (notifications ++ later) = forKey concerns key notifications ++ forKey concerns key later :=
  List.filter_append _ _

theorem forSubscriber_single (one : σ) (notification : ν) :
    forSubscriber concerns key subscriber [(one, notification)] =
      if one = subscriber then forKey concerns key [notification] else [] := by
  unfold forSubscriber forKey
  by_cases hone : one = subscriber <;> by_cases hkey : concerns key notification <;> simp [hone, hkey]

theorem forSubscriber_cons (one : σ) (notification : ν) (calls : List (σ × ν)) :
    forSubscriber concerns key subscriber ((one, notification) :: calls) =
      (if one = subscriber then forKey concerns key [notification] else []) ++
        forSubscriber concerns key subscriber calls := by
  rw [← forSubscriber_single]
  exact forSubscriber_append [(one, notification)] calls

theorem forSubscriber_others {calls : List (σ × ν)} (h : ∀ call ∈ calls, call.1 ≠ subscriber) :
    forSubscriber concerns key subscriber calls = [] := by
  unfold forSubscriber
  rw [List.map_eq_nil_iff, List.filter_eq_nil_iff]
  intro call hcall
  simp [h call hcall]

theorem forSubscriber_pass {subscribers : List σ} (hnodup : subscribers.Nodup) (notification : ν) :
    forSubscriber concerns key subscriber (subscribers.map fun one => (one, notification)) =
      if subscriber ∈ subscribers then forKey concerns key [notification] else [] := by
  induction subscribers with
  | nil => rfl
  | cons first rest ih =>
    rcases List.nodup_cons.1 hnodup with ⟨hnew, hrest⟩
    rw [List.map_cons, forSubscriber_cons, ih hrest]
    by_cases hfirst : first = subscriber
    · rw [if_pos hfirst, if_neg (hfirst ▸ hnew), if_pos (hfirst ▸ List.mem_cons_self), List.append_nil]
    · rw [if_neg hfirst, List.nil_append]
      simp [Ne.symm hfirst]

theorem suffix_append {earlier later : List ν} (h : earlier <:+ later) (more : List ν) :
    earlier ++ more <:+ later ++ more := by
  rcases h with ⟨before, rfl⟩
  exact ⟨before, (List.append_assoc before earlier more).symm⟩

end Calls

section Steps
variable {κ σ ν : Type} [DecidableEq σ] {concerns : κ → ν → Prop}
  [∀ key, DecidablePred (concerns key)] {subscribed : κ → σ → Prop}
  {c t : Channel κ σ ν}

theorem initial_faithful : Faithful concerns subscribed (Channel.initial : Channel κ σ ν) :=
  ⟨fun _ _ => List.nil_sublist _, fun _ _ _ => List.nil_suffix⟩

theorem Faithful.mono {remaining : κ → σ → Prop} (h : Faithful concerns subscribed c)
    (hremaining : ∀ key subscriber, remaining key subscriber → subscribed key subscriber) :
    Faithful concerns remaining c :=
  ⟨h.once, fun key subscriber hsubscribed => h.complete key subscriber (hremaining key subscriber hsubscribed)⟩

theorem Faithful.join [DecidableEq κ] {joined : κ → σ → Prop} (h : Faithful concerns subscribed c) {key : κ}
    {subscriber : σ}
    (hjoined : ∀ other one, joined other one → (other = key ∧ one = subscriber) ∨ subscribed other one) :
    Faithful concerns joined (c.join key subscriber) := by
  refine ⟨h.once, fun other one hother => ?_⟩
  change (if other = key ∧ one = subscriber then [] else c.since other one) <:+ c.deliveries concerns other one
  split
  · exact List.nil_suffix
  · rename_i hne
    exact h.complete other one ((hjoined other one hother).resolve_left hne)

omit [DecidableEq σ] in
theorem since_enter (notification : ν) (key : κ) (subscriber : σ) :
    (c.enter concerns notification).since key subscriber =
      c.since key subscriber ++ forKey concerns key [notification] := by
  change (if concerns key notification then _ else _) = _
  unfold forKey
  by_cases hkey : concerns key notification <;> simp [hkey]

theorem Faithful.queued (h : Faithful concerns subscribed c) (notification : ν) :
    Faithful concerns subscribed ((c.enter concerns notification).push notification) := by
  have hdeliveries : ∀ key subscriber,
      ((c.enter concerns notification).push notification).deliveries concerns key subscriber =
        c.deliveries concerns key subscriber ++ forKey concerns key [notification] := by
    intro key subscriber
    unfold Channel.deliveries Channel.onTheWay
    change forSubscriber concerns key subscriber c.told ++ (forSubscriber concerns key subscriber c.passes.flatten ++
      forKey concerns key (c.queue ++ [notification])) = _
    rw [forKey_append, List.append_assoc, List.append_assoc]
  constructor
  · intro key subscriber
    rw [hdeliveries]
    change List.Sublist _ (forKey concerns key (c.received ++ [notification]))
    rw [forKey_append]
    exact (h.once key subscriber).append (List.Sublist.refl _)
  · intro key subscriber hsubscribed
    rw [hdeliveries]
    change (c.enter concerns notification).since key subscriber <:+ _
    rw [since_enter]
    exact suffix_append (h.complete key subscriber hsubscribed) _

/-- A notification goes to its subscribers at once, past an empty queue. -/
theorem Faithful.passed (h : Faithful concerns subscribed c) (hqueue : c.queue = []) {subscribers : List σ}
    (hnodup : subscribers.Nodup) (notification : ν)
    (hcopied : ∀ key subscriber, subscribed key subscriber → concerns key notification → subscriber ∈ subscribers) :
    Faithful concerns subscribed ((c.enter concerns notification).pass subscribers notification) := by
  have hdeliveries : ∀ key subscriber,
      ((c.enter concerns notification).pass subscribers notification).deliveries concerns key subscriber =
        c.deliveries concerns key subscriber ++
          if subscriber ∈ subscribers then forKey concerns key [notification] else [] := by
    intro key subscriber
    unfold Channel.deliveries Channel.onTheWay
    change _ ++ (forSubscriber concerns key subscriber (c.passes ++ [_]).flatten ++ forKey concerns key c.queue) = _
    rw [List.flatten_append, forSubscriber_append, List.flatten_singleton, forSubscriber_pass hnodup, hqueue]
    simp [forKey]
    rfl
  constructor
  · intro key subscriber
    rw [hdeliveries]
    change List.Sublist _ (forKey concerns key (c.received ++ [notification]))
    rw [forKey_append]
    refine (h.once key subscriber).append ?_
    split
    · exact List.Sublist.refl _
    · exact List.nil_sublist _
  · intro key subscriber hsubscribed
    rw [hdeliveries]
    change (c.enter concerns notification).since key subscriber <:+ _
    rw [since_enter]
    by_cases hkey : concerns key notification
    · rw [if_pos (hcopied key subscriber hsubscribed hkey)]
      exact suffix_append (h.complete key subscriber hsubscribed) _
    · have hnone : forKey concerns key [notification] = [] := by
        unfold forKey
        simp [hkey]
      rw [hnone, ite_self, List.append_nil, List.append_nil]
      exact h.complete key subscriber hsubscribed

/-- The oldest notification of the queue goes to those who are subscribed now. -/
theorem Faithful.taken (h : Faithful concerns subscribed c) {notification : ν} {rest : List ν}
    (hqueue : c.queue = notification :: rest) {subscribers : List σ} (hnodup : subscribers.Nodup)
    (hcopied : ∀ key subscriber, subscribed key subscriber → concerns key notification → subscriber ∈ subscribers) :
    Faithful concerns subscribed (({ c with queue := rest } : Channel κ σ ν).pass subscribers notification) := by
  have hbefore : ∀ key subscriber, c.deliveries concerns key subscriber =
      forSubscriber concerns key subscriber c.told ++ (forSubscriber concerns key subscriber c.passes.flatten ++
        (forKey concerns key [notification] ++ forKey concerns key rest)) := by
    intro key subscriber
    unfold Channel.deliveries Channel.onTheWay
    rw [hqueue, ← forKey_append]
    rfl
  have hafter : ∀ key subscriber,
      (({ c with queue := rest } : Channel κ σ ν).pass subscribers notification).deliveries concerns key subscriber =
        forSubscriber concerns key subscriber c.told ++ (forSubscriber concerns key subscriber c.passes.flatten ++
          ((if subscriber ∈ subscribers then forKey concerns key [notification] else []) ++
            forKey concerns key rest)) := by
    intro key subscriber
    unfold Channel.deliveries Channel.onTheWay
    change _ ++ (forSubscriber concerns key subscriber (c.passes ++ [_]).flatten ++ forKey concerns key rest) = _
    rw [List.flatten_append, forSubscriber_append, List.flatten_singleton, forSubscriber_pass hnodup, List.append_assoc]
    rfl
  constructor
  · intro key subscriber
    refine List.Sublist.trans ?_ (h.once key subscriber)
    rw [hbefore, hafter]
    refine (List.Sublist.refl _).append ((List.Sublist.refl _).append (List.Sublist.append ?_ (List.Sublist.refl _)))
    split
    · exact List.Sublist.refl _
    · exact List.nil_sublist _
  · intro key subscriber hsubscribed
    have hsame : (if subscriber ∈ subscribers then forKey concerns key [notification] else []) =
        forKey concerns key [notification] := by
      by_cases hkey : concerns key notification
      · exact if_pos (hcopied key subscriber hsubscribed hkey)
      · have hnone : forKey concerns key [notification] = [] := by
          unfold forKey
          simp [hkey]
        rw [hnone, ite_self]
    rw [hafter, hsame, ← hbefore]
    exact h.complete key subscriber hsubscribed

omit [DecidableEq σ] in
theorem tell_some {isAlive : σ → Bool} {i : ℕ} (h : c.tell isAlive i = some t) :
    ∃ subscriber notification rest later, c.passes = c.passes.take i ++ ((subscriber, notification) :: rest) :: later ∧
      c.passes[i]? = some ((subscriber, notification) :: rest) ∧
      t = { c with
        passes := c.passes.take i ++ rest :: later
        told := if isAlive subscriber then c.told ++ [(subscriber, notification)] else c.told } := by
  unfold Channel.tell at h
  split at h
  · rename_i subscriber notification rest hget
    cases h
    rcases List.getElem?_eq_some_iff.1 hget with ⟨hlt, heq⟩
    refine ⟨subscriber, notification, rest, c.passes.drop (i + 1), ?_, hget, ?_⟩
    · rw [← heq, ← List.drop_eq_getElem_cons hlt, List.take_append_drop]
    · rw [List.set_eq_take_append_cons_drop, if_pos hlt]
  · cases h

/-- A call in its turn comes before all other calls for its subscriber. -/
theorem tell_first {isAlive : σ → Bool} {i : ℕ} (hturn : c.IsTurn i) (htell : c.tell isAlive i = some t) :
    ∃ first, c.passes[i]?.bind List.head? = some first ∧
      t.told = (if isAlive first.1 then c.told ++ [first] else c.told) ∧
      ∀ (concerns : κ → ν → Prop) [∀ key, DecidablePred (concerns key)] key subscriber,
        forSubscriber concerns key subscriber c.passes.flatten =
          forSubscriber concerns key subscriber [first] ++ forSubscriber concerns key subscriber t.passes.flatten := by
  rcases tell_some htell with ⟨one, notification, rest, later, hpasses, hget, rfl⟩
  have hhead : c.passes[i]?.bind List.head? = some (one, notification) := by
    rw [hget]
    rfl
  refine ⟨(one, notification), hhead, rfl, fun concerns _ key subscriber => ?_⟩
  have hothers : ∀ call ∈ (c.passes.take i).flatten, call.1 ≠ one := hturn (one, notification) hhead
  dsimp only
  generalize c.passes.take i = earlier at hpasses hothers ⊢
  rw [hpasses]
  simp only [List.flatten_append, List.flatten_cons, forSubscriber_append, List.cons_append, forSubscriber_cons]
  by_cases hone : one = subscriber
  · subst hone
    rw [forSubscriber_others hothers]
    simp [forSubscriber]
  · simp [forSubscriber, hone]

/-- A call for a subscriber in its turn. Other subscribers do not see it. -/
theorem Faithful.tell {isAlive : σ → Bool} {i : ℕ} (h : Faithful concerns subscribed c) (hturn : c.IsTurn i)
    (halive : ∀ key subscriber, subscribed key subscriber → isAlive subscriber = true)
    (htell : c.tell isAlive i = some t) : Faithful concerns subscribed t := by
  rcases tell_first hturn htell with ⟨⟨one, notification⟩, -, htold, hpasses⟩
  have hrecords : t.queue = c.queue ∧ t.received = c.received ∧ t.since = c.since := by
    rcases tell_some htell with ⟨_, _, _, _, -, -, rfl⟩
    exact ⟨rfl, rfl, rfl⟩
  rcases hrecords with ⟨hqueue, hreceived, hsince⟩
  have hbefore : ∀ key subscriber, c.deliveries concerns key subscriber =
      (forSubscriber concerns key subscriber c.told ++ forSubscriber concerns key subscriber [(one, notification)]) ++
        t.onTheWay concerns key subscriber := by
    intro key subscriber
    unfold Channel.deliveries Channel.onTheWay
    rw [hpasses, hqueue, List.append_assoc, List.append_assoc]
  have hafter : ∀ key subscriber, t.deliveries concerns key subscriber =
      forSubscriber concerns key subscriber t.told ++ t.onTheWay concerns key subscriber := fun _ _ => rfl
  cases hliving : isAlive one with
  | true =>
    have hsame : ∀ key subscriber, t.deliveries concerns key subscriber = c.deliveries concerns key subscriber := by
      intro key subscriber
      rw [hbefore, hafter, htold, if_pos hliving, forSubscriber_append]
    refine ⟨fun key subscriber => ?_, fun key subscriber hsubscribed => ?_⟩
    · rw [hsame, hreceived]
      exact h.once key subscriber
    · rw [hsame, hsince]
      exact h.complete key subscriber hsubscribed
  | false =>
    have hless : t.told = c.told := by
      rw [htold, if_neg (Bool.eq_false_iff.1 hliving)]
    refine ⟨fun key subscriber => ?_, fun key subscriber hsubscribed => ?_⟩
    · rw [hreceived]
      refine List.Sublist.trans ?_ (h.once key subscriber)
      rw [hafter, hbefore, hless, List.append_assoc]
      exact (List.Sublist.refl _).append (List.sublist_append_right _ _)
    · have hne : one ≠ subscriber := by
        rintro rfl
        cases (halive key one hsubscribed).symm.trans hliving
      have hcomplete := h.complete key subscriber hsubscribed
      rw [hbefore, forSubscriber_single, if_neg hne, List.append_nil] at hcomplete
      rw [hafter, hless, hsince]
      exact hcomplete

end Steps

section Progress
variable {κ σ ν : Type} {c : Channel κ σ ν}

/-- While calls are to be made, one of them can be made, and it is in its turn. -/
theorem exists_turn (isAlive : σ → Bool) (h : c.passes.flatten ≠ []) :
    ∃ i t, c.IsTurn i ∧ c.tell isAlive i = some t ∧ t.passes.flatten.length < c.passes.flatten.length ∧
      t.queue = c.queue ∧ t.received = c.received ∧ t.since = c.since := by
  have hfirst : ∀ passes : List (List (σ × ν)), passes.flatten ≠ [] →
      ∃ i one notification rest, passes[i]? = some ((one, notification) :: rest) ∧ (passes.take i).flatten = [] := by
    intro passes hne
    induction passes with
    | nil => exact absurd rfl hne
    | cons first others ih =>
      cases first with
      | cons call rest => exact ⟨0, call.1, call.2, rest, rfl, rfl⟩
      | nil =>
        rcases ih hne with ⟨i, one, notification, rest, hget, hnone⟩
        exact ⟨i + 1, one, notification, rest, hget, hnone⟩
  rcases hfirst c.passes h with ⟨i, one, notification, rest, hget, hnone⟩
  have htell : ∃ t, c.tell isAlive i = some t := by
    unfold Channel.tell
    rw [hget]
    exact ⟨_, rfl⟩
  rcases htell with ⟨t, ht⟩
  refine ⟨i, t, ?_, ht, ?_⟩
  · unfold Channel.IsTurn
    rw [hnone]
    exact fun _ _ _ hcall => absurd hcall List.not_mem_nil
  · rcases tell_some ht with ⟨_, _, _, _, hpasses, -, rfl⟩
    refine ⟨?_, rfl, rfl, rfl⟩
    nth_rewrite 2 [hpasses]
    simp only [List.flatten_append, List.flatten_cons, List.length_append, List.length_cons]
    omega

/-- A system that can make every call and take what is queued works everything off. -/
theorem works_off {ς ι : Type} {step : ς → ι → Option ς} {own : ς → ι → Prop} {channel : ς → Channel κ σ ν}
    (hcall : ∀ s, (channel s).passes.flatten ≠ [] → ∃ a t, own s a ∧ step s a = some t ∧
      (channel t).passes.flatten.length < (channel s).passes.flatten.length ∧ (channel t).queue = (channel s).queue)
    (htake : ∀ s notification rest, (channel s).queue = notification :: rest → ∃ a t, own s a ∧ step s a = some t ∧
      (channel t).queue = rest) (s : ς) :
    ∃ t, Reachable step own s t ∧ (channel t).queue = [] ∧ (channel t).passes.flatten = [] := by
  have hcalls : ∀ (calls : ℕ) (t : ς), Reachable step own s t → (channel t).passes.flatten.length ≤ calls →
      ∃ u, Reachable step own s u ∧ (channel u).queue = (channel t).queue ∧ (channel u).passes.flatten = [] := by
    intro calls
    induction calls with
    | zero => exact fun t ht hcalls => ⟨t, ht, rfl, List.eq_nil_of_length_eq_zero (Nat.le_zero.1 hcalls)⟩
    | succ calls ih =>
      intro t ht hcalls
      by_cases hdone : (channel t).passes.flatten = []
      · exact ⟨t, ht, rfl, hdone⟩
      · rcases hcall t hdone with ⟨a, u, hown, hstep, hless, hqueue⟩
        rcases ih u (ht.next hown hstep) (Nat.le_of_lt_succ (hless.trans_le hcalls)) with ⟨v, hv, hsame, hnone⟩
        exact ⟨v, hv, hsame.trans hqueue, hnone⟩
  have hqueues : ∀ (queue : List ν) (t : ς), Reachable step own s t → (channel t).queue = queue →
      ∃ u, Reachable step own s u ∧ (channel u).queue = [] ∧ (channel u).passes.flatten = [] := by
    intro queue
    induction queue with
    | nil =>
      intro t ht hqueue
      rcases hcalls _ t ht le_rfl with ⟨u, hu, hsame, hnone⟩
      exact ⟨u, hu, hsame.trans hqueue, hnone⟩
    | cons notification rest ih =>
      intro t ht hqueue
      rcases htake t notification rest hqueue with ⟨a, u, hown, hstep, hrest⟩
      exact ih u (ht.next hown hstep) hrest
  exact hqueues _ s .start rfl

end Progress

end SomeIPRuntime.Broadcasts
