import SomeIPRuntime.RemoteAttributes
import SomeIPRuntime.StepSystems

set_option autoImplicit false

namespace SomeIPRuntime.AttributeChanges
open StepSystems Serialization TypedValues

/-- The stub: `onRemoteSet` says whether the value has changed, and `locks` whether
    `lockStubFunctor_` excludes other threads. -/
structure Stub (σ ρ α : Type) where
  onRemoteSet : ClientId → ρ → σ → σ × Bool
  getAttributeValue : σ → α
  locks : Bool

/-- Where a thread is in `SetObservableAttributeStubDispatcher::dispatchMessage`. -/
inductive Phase (α : Type)
  | idle
  | sendAttributeValueReply (hasChanged : Bool)
  | fireAttributeValueChanged
  | locked
  | fireChanged (value : α)
  | unlock
  | notifyOnRemoteChanged

/-- `fired` are the values of the events, the last one first, and `replies` those of the replies. -/
structure State (ι σ α : Type) where
  stub : σ
  phase : ι → Phase α
  lock : Option ι
  replies : List (ι × α)
  fired : List α
  remoteChanged : ℕ

inductive Action (ι ρ : Type)
  | onRemoteSet (thread : ι) (client : ClientId) (request : ρ)
  /-- `isConnected` is what `sendMessage` returns. -/
  | reply (thread : ι) (isConnected : Bool)
  | next (thread : ι)

section Steps
variable {ι σ ρ α : Type} [DecidableEq ι] (stub : Stub σ ρ α)

def initial (start : σ) : State ι σ α := ⟨start, fun _ => .idle, none, [], [], 0⟩

def State.go (s : State ι σ α) (thread : ι) (phase : Phase α) : State ι σ α :=
  { s with phase := Function.update s.phase thread phase }

def step (s : State ι σ α) : Action ι ρ → Option (State ι σ α)
  | .onRemoteSet thread client request =>
    match s.phase thread with
    | .idle =>
      let (next, hasChanged) := stub.onRemoteSet client request s.stub
      some ({ s with stub := next }.go thread (.sendAttributeValueReply hasChanged))
    | _ => none
  | .reply thread isConnected =>
    match s.phase thread, s.lock with
    | .sendAttributeValueReply hasChanged, none =>
      if isConnected then
        some ({ s with replies := (thread, stub.getAttributeValue s.stub) :: s.replies }.go thread
          (if hasChanged then .fireAttributeValueChanged else .idle))
      else some (s.go thread .idle)
    | _, _ => none
  | .next thread =>
    match s.phase thread with
    | .fireAttributeValueChanged =>
      match s.lock with
      | none => some ({ s with lock := if stub.locks then some thread else none }.go thread .locked)
      | some _ => none
    | .locked => some (s.go thread (.fireChanged (stub.getAttributeValue s.stub)))
    | .fireChanged value => some ({ s with fired := value :: s.fired }.go thread .unlock)
    | .unlock => some ({ s with lock := none }.go thread .notifyOnRemoteChanged)
    | .notifyOnRemoteChanged => some ({ s with remoteChanged := s.remoteChanged + 1 }.go thread .idle)
    | _ => none

def State.observed (s : State ι σ α) (start : α) : α := s.fired.head?.getD start

def State.Quiet (s : State ι σ α) : Prop := ∀ thread, s.phase thread = .idle

def Connected (_ : State ι σ α) : Action ι ρ → Prop
  | .reply _ isConnected => isConnected = true
  | _ => True

instance (s : State ι σ α) : (a : Action ι ρ) → Decidable (Connected s a)
  | .reply _ isConnected => inferInstanceAs (Decidable (isConnected = true))
  | .onRemoteSet _ _ _ | .next _ => .isTrue trivial

/-- The value changes only where the stub says so. -/
def Stub.Truthful (stub : Stub σ ρ α) : Prop :=
  ∀ client request s, (stub.onRemoteSet client request s).2 = false →
    stub.getAttributeValue (stub.onRemoteSet client request s).1 = stub.getAttributeValue s

def Phase.Owes : Phase α → Prop
  | .sendAttributeValueReply hasChanged => hasChanged = true
  | .fireAttributeValueChanged | .locked => True
  | _ => False

def Phase.Inside : Phase α → Prop
  | .locked | .fireChanged _ | .unlock => True
  | _ => False

structure OnItsWay (stub : Stub σ ρ α) (start : α) (s : State ι σ α) : Prop where
  inside : ∀ thread, (s.phase thread).Inside → s.lock = some thread
  fresh : (∃ thread, (s.phase thread).Owes) ∨
    ((∀ thread value, s.phase thread = .fireChanged value → value = stub.getAttributeValue s.stub) ∧
      ((∃ thread value, s.phase thread = .fireChanged value) ∨
        s.observed start = stub.getAttributeValue s.stub))

end Steps

section Invariant
variable {ι σ ρ α : Type} {stub : Stub σ ρ α} {start : α} {s t : State ι σ α}

theorem initial_onItsWay (first : σ) :
    OnItsWay stub (stub.getAttributeValue first) (initial first : State ι σ α) where
  inside _ h := h.elim
  fresh := Or.inr ⟨fun _ _ h => (by cases h), Or.inr rfl⟩

theorem OnItsWay.alone (h : OnItsWay stub start s) {one other : ι} (hone : (s.phase one).Inside)
    (hother : (s.phase other).Inside) : other = one :=
  Option.some.inj ((h.inside other hother).symm.trans (h.inside one hone))

variable [DecidableEq ι] {thread : ι} {phase : Phase α}

@[simp] theorem go_self (s : State ι σ α) (thread : ι) (phase : Phase α) : (s.go thread phase).phase thread = phase :=
  Function.update_self _ _ _

theorem go_other (s : State ι σ α) {thread other : ι} (hne : other ≠ thread) (phase : Phase α) :
    (s.go thread phase).phase other = s.phase other :=
  Function.update_of_ne hne _ _

theorem OnItsWay.inside_kept (h : OnItsWay stub start s) (hphase : t.phase = Function.update s.phase thread phase)
    (hlock : t.lock = s.lock) (hinside : phase.Inside → (s.phase thread).Inside) :
    ∀ other, (t.phase other).Inside → t.lock = some other := by
  intro other hother
  rw [hphase] at hother
  rw [hlock]
  by_cases hsame : other = thread
  · rw [hsame, Function.update_self] at hother
    rw [hsame]
    exact h.inside thread (hinside hother)
  · rw [Function.update_of_ne hsame] at hother
    exact h.inside other hother

/-- A thread that has not to fire anything does nothing that an observer is told of. -/
theorem OnItsWay.fresh_kept (h : OnItsWay stub start s) (hphase : t.phase = Function.update s.phase thread phase)
    (howes : ¬ (s.phase thread).Owes) (hfires : ∀ value, s.phase thread ≠ .fireChanged value)
    (hfires' : ∀ value, phase ≠ .fireChanged value)
    (hvalue : stub.getAttributeValue t.stub = stub.getAttributeValue s.stub) (hfired : t.fired = s.fired) :
    (∃ thread, (t.phase thread).Owes) ∨
      ((∀ thread value, t.phase thread = .fireChanged value → value = stub.getAttributeValue t.stub) ∧
        ((∃ thread value, t.phase thread = .fireChanged value) ∨
          t.observed start = stub.getAttributeValue t.stub)) := by
  have hobserved : t.observed start = s.observed start := by
    unfold State.observed
    rw [hfired]
  rw [hphase, hvalue, hobserved]
  rcases h.fresh with ⟨other, hother⟩ | ⟨hvalues, hlast⟩
  · left
    have hne : other ≠ thread := fun heq => howes (heq ▸ hother)
    exact ⟨other, by rw [Function.update_of_ne hne]; exact hother⟩
  · right
    refine ⟨fun other value hother => ?_, ?_⟩
    · by_cases hsame : other = thread
      · rw [hsame, Function.update_self] at hother
        exact absurd hother (hfires' value)
      · rw [Function.update_of_ne hsame] at hother
        exact hvalues other value hother
    · rcases hlast with ⟨other, value, hother⟩ | hlast
      · left
        have hne : other ≠ thread := fun heq => hfires value (heq ▸ hother)
        exact ⟨other, value, by rw [Function.update_of_ne hne]; exact hother⟩
      · exact Or.inr hlast

theorem OnItsWay.onRemoteSet {client : ClientId} {request : ρ} (h : OnItsWay stub start s)
    (htruthful : stub.Truthful) (hidle : s.phase thread = .idle) :
    OnItsWay stub start ({ s with stub := (stub.onRemoteSet client request s.stub).1 }.go thread
      (.sendAttributeValueReply (stub.onRemoteSet client request s.stub).2)) := by
  refine ⟨h.inside_kept rfl rfl fun hinside => hinside.elim, ?_⟩
  cases hchanged : (stub.onRemoteSet client request s.stub).2 with
  | true => exact Or.inl ⟨thread, by rw [go_self]; exact rfl⟩
  | false =>
    exact h.fresh_kept rfl (by rw [hidle]; exact id) (by rw [hidle]; exact nofun) nofun
      (htruthful client request s.stub hchanged) rfl

theorem OnItsWay.reply (h : OnItsWay stub start s) {hasChanged : Bool} {replies : List (ι × α)}
    (hphase : s.phase thread = .sendAttributeValueReply hasChanged) :
    OnItsWay stub start ({ s with replies := replies }.go thread
      (if hasChanged then .fireAttributeValueChanged else .idle)) := by
  cases hasChanged with
  | true =>
    exact ⟨h.inside_kept rfl rfl fun hinside => hinside.elim,
      Or.inl ⟨thread, by rw [go_self]; exact trivial⟩⟩
  | false =>
    refine ⟨h.inside_kept rfl rfl fun hinside => hinside.elim, ?_⟩
    exact h.fresh_kept rfl (by rw [hphase]; exact nofun) (by rw [hphase]; exact nofun) nofun rfl rfl

theorem OnItsWay.take (h : OnItsWay stub start s) (hfree : s.lock = none) :
    OnItsWay stub start ({ s with lock := some thread }.go thread .locked) := by
  refine ⟨fun other hother => ?_, Or.inl ⟨thread, by rw [go_self]; exact trivial⟩⟩
  by_cases hsame : other = thread
  · rw [hsame]
    rfl
  · have hinside : (s.phase other).Inside := by
      rwa [go_other _ hsame] at hother
    rw [h.inside other hinside] at hfree
    cases hfree

theorem OnItsWay.fetch (h : OnItsWay stub start s) (hphase : s.phase thread = .locked) :
    OnItsWay stub start (s.go thread (.fireChanged (stub.getAttributeValue s.stub))) := by
  have hinside : (s.phase thread).Inside := by rw [hphase]; exact trivial
  refine ⟨h.inside_kept rfl rfl fun _ => hinside, Or.inr ⟨fun other value hother => ?_,
    Or.inl ⟨thread, stub.getAttributeValue s.stub, go_self s thread _⟩⟩⟩
  · by_cases hsame : other = thread
    · rw [hsame, go_self] at hother
      cases hother
      rfl
    · rw [go_other _ hsame] at hother
      exact absurd (h.alone hinside (by rw [hother]; exact trivial)) hsame

theorem OnItsWay.fire (h : OnItsWay stub start s) {value : α} (hphase : s.phase thread = .fireChanged value) :
    OnItsWay stub start ({ s with fired := value :: s.fired }.go thread .unlock) := by
  have hinside : (s.phase thread).Inside := by rw [hphase]; exact trivial
  refine ⟨h.inside_kept rfl rfl fun _ => hinside, ?_⟩
  rcases h.fresh with ⟨other, hother⟩ | ⟨hvalues, -⟩
  · left
    have hne : other ≠ thread := by
      intro heq
      rw [heq, hphase] at hother
      exact hother
    exact ⟨other, by rw [go_other _ hne]; exact hother⟩
  · right
    refine ⟨fun other value' hother => ?_, Or.inr (hvalues thread value hphase)⟩
    by_cases hsame : other = thread
    · rw [hsame, go_self] at hother
      cases hother
    · rw [go_other _ hsame] at hother
      exact absurd (h.alone hinside (by rw [hother]; exact trivial)) hsame

theorem OnItsWay.unlock (h : OnItsWay stub start s) (hphase : s.phase thread = .unlock) :
    OnItsWay stub start ({ s with lock := none }.go thread .notifyOnRemoteChanged) := by
  have hinside : (s.phase thread).Inside := by rw [hphase]; exact trivial
  refine ⟨fun other hother => ?_, ?_⟩
  · by_cases hsame : other = thread
    · rw [hsame, go_self] at hother
      exact hother.elim
    · rw [go_other _ hsame] at hother
      exact absurd (h.alone hinside hother) hsame
  · exact h.fresh_kept rfl (by rw [hphase]; exact id) (by rw [hphase]; exact nofun) nofun rfl rfl

theorem OnItsWay.finish (h : OnItsWay stub start s) (hphase : s.phase thread = .notifyOnRemoteChanged) (n : ℕ) :
    OnItsWay stub start ({ s with remoteChanged := n }.go thread .idle) :=
  ⟨h.inside_kept rfl rfl fun hinside => hinside.elim,
    h.fresh_kept rfl (by rw [hphase]; exact id) (by rw [hphase]; exact nofun) nofun rfl rfl⟩

theorem step_onItsWay (htruthful : stub.Truthful) (hlocks : stub.locks = true) {a : Action ι ρ}
    (h : OnItsWay stub start s) (hok : Connected s a) (hstep : step stub s a = some t) : OnItsWay stub start t := by
  cases a with
  | onRemoteSet thread client request =>
    dsimp only [step] at hstep
    cases hphase : s.phase thread with
    | idle =>
      rw [hphase] at hstep
      cases hstep
      exact h.onRemoteSet htruthful hphase
    | _ =>
      rw [hphase] at hstep
      cases hstep
  | reply thread isConnected =>
    cases hok
    dsimp only [step] at hstep
    split at hstep
    · rename_i hasChanged hphase hlock
      cases hstep
      exact h.reply hphase
    · cases hstep
  | next thread =>
    dsimp only [step] at hstep
    cases hphase : s.phase thread with
    | fireAttributeValueChanged =>
      rw [hphase] at hstep
      cases hlock : s.lock with
      | none =>
        rw [hlock, hlocks] at hstep
        cases hstep
        exact h.take hlock
      | some _ =>
        rw [hlock] at hstep
        cases hstep
    | locked =>
      rw [hphase] at hstep
      cases hstep
      exact h.fetch hphase
    | fireChanged value =>
      rw [hphase] at hstep
      cases hstep
      exact h.fire hphase
    | unlock =>
      rw [hphase] at hstep
      cases hstep
      exact h.unlock hphase
    | notifyOnRemoteChanged =>
      rw [hphase] at hstep
      cases hstep
      exact h.finish hphase _
    | idle | sendAttributeValueReply _ =>
      rw [hphase] at hstep
      cases hstep

/-- However the dispatches of several threads take turns: once none of them is under way, who follows the
    events has the value of the stub. -/
theorem observers_catch_up (htruthful : stub.Truthful) (hlocks : stub.locks = true) {first : σ}
    (h : Reachable (step stub) Connected (initial first) s) (hquiet : s.Quiet) :
    s.observed (stub.getAttributeValue first) = stub.getAttributeValue s.stub := by
  have hway : OnItsWay stub (stub.getAttributeValue first) s :=
    h.invariant (initial_onItsWay first) fun _ _ _ h hok hstep => step_onItsWay htruthful hlocks h hok hstep
  rcases hway.fresh with ⟨thread, howes⟩ | ⟨-, ⟨thread, value, hfires⟩ | hlast⟩
  · rw [hquiet thread] at howes
    exact howes.elim
  · rw [hquiet thread] at hfires
    cases hfires
  · exact hlast

end Invariant

section Uninterrupted
variable {ι σ ρ α : Type} [DecidableEq ι] {stub : Stub σ ρ α} {s : State ι σ α} {thread : ι}

def uninterrupted (stub : Stub σ ρ α) (thread : ι) (client : ClientId) (request : ρ) (s : σ) : List (Action ι ρ) :=
  [.onRemoteSet thread client request, .reply thread true] ++
    if (stub.onRemoteSet client request s).2 then List.replicate 5 (.next thread) else []

theorem uninterrupted_runs (hidle : s.phase thread = .idle) (hfree : s.lock = none) (client : ClientId)
    (request : ρ) :
    ∃ t, run (step stub) s (uninterrupted stub thread client request s.stub) = some t ∧
      t.stub = (stub.onRemoteSet client request s.stub).1 ∧
      t.replies = (thread, stub.getAttributeValue (stub.onRemoteSet client request s.stub).1) :: s.replies ∧
      t.fired = (if (stub.onRemoteSet client request s.stub).2 then
        [stub.getAttributeValue (stub.onRemoteSet client request s.stub).1] else []) ++ s.fired := by
  cases hchanged : (stub.onRemoteSet client request s.stub).2 <;>
    simp [uninterrupted, hchanged, run, step, hidle, hfree, State.go]

def ofAttribute (field : RemoteAttributes.Attribute σ) (locks : Bool) : Stub σ field.type.Value field.type.Value :=
  ⟨field.onRemoteSet, field.get 0, locks⟩

/-- Alone, the steps of a thread are what the dispatcher does. -/
theorem dispatchSet_steps {parts : (type : DataType) → type.Value → (part : DataType) → part.Value}
    {uninitialised : ℕ × ℕ} {fuel : ℕ} {field : RemoteAttributes.Attribute σ} (locks : Bool)
    {s : State ι σ field.type.Value} {message : VsomeipMessage} {request : field.type.Value} {reply : Handed}
    (himplemented : field.isImplemented = true) (hobservable : field.isObservable = true)
    (hsame : ∀ client stub, field.get client stub = field.get 0 stub)
    (hread : field.itsValue parts uninitialised fuel message = .ok (true, request, ()))
    (hreply : writeArguments field.isLittleEndian
      [field.type.write (field.get message.client (field.onRemoteSet message.client request s.stub).1)]
      message.createResponseMessage = .ok (some reply))
    (hidle : s.phase thread = .idle) (hfree : s.lock = none) :
    ∃ handled t, field.dispatchSet parts uninitialised fuel true message s.stub = .ok handled ∧
      run (step (ofAttribute field locks)) s
        (uninterrupted (ofAttribute field locks) thread message.client request s.stub) = some t ∧
      t.stub = handled.stub ∧ t.fired = handled.fired ++ s.fired := by
  rcases @uninterrupted_runs _ _ _ _ _ (ofAttribute field locks) s thread hidle hfree message.client request with
    ⟨t, hrun, hstub, -, hfired⟩
  refine ⟨_, t, RemoteAttributes.dispatchSet_replies himplemented hread hreply, hrun, hstub, ?_⟩
  rw [hfired, hobservable, Bool.and_true, hsame message.client]
  rfl

end Uninterrupted

def number (locks : Bool) : Stub ℕ ℕ ℕ := ⟨fun _ request s => (request, decide (request ≠ s)), id, locks⟩

/-- Thread `true` sets the number while thread `false` is about to fire the event of its own. -/
def overtaken : List (Action Bool ℕ) :=
  [.onRemoteSet false 1 5, .reply false true, .next false, .onRemoteSet true 2 6, .next false, .next false,
    .next false, .reply true true, .next true, .next true, .next true, .next true, .next true, .next false]

theorem overtaken_catches_up : ∃ s, run (step (number true)) (initial 0) overtaken = some s ∧
    s.observed 0 = s.stub := by
  have hrun : (run (step (number true)) (initial 0) overtaken).isSome := rfl
  rcases Option.isSome_iff_exists.1 hrun with ⟨s, hs⟩
  have hmeets : Meets (step (number true)) Connected (initial 0) overtaken := by decide
  have htruthful : (number true).Truthful := by
    intro client request s h
    exact not_not.1 (of_decide_eq_false h)
  refine ⟨s, hs, observers_catch_up htruthful rfl (.of_run _ hmeets hs) ?_⟩
  cases hs
  intro thread
  cases thread <;> rfl

end SomeIPRuntime.AttributeChanges
