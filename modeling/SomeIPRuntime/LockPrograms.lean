import SomeIPRuntime.StepSystems

set_option autoImplicit false

/-!
# Programs of threads that lock mutexes and call back

The functions of a component are called by code that is not known, and call unknown code back in turn.
Rules for the mutexes that a thread holds, one for each kind of statement, say that no function calls
back under a mutex; what the rules say of the functions holds in every run of any number of threads.
-/
namespace SomeIPRuntime.LockPrograms
open StepSystems

/-- `μ` are mutexes, `κ` kinds of callbacks, `β` conditions and `α` changes of shared data. -/
inductive Stmt (μ κ β α : Type)
  | skip
  | seq (first second : Stmt μ κ β α)
  | lock (mutex : μ)
  | unlock (mutex : μ)
  | act (change : α)
  | callback (kind : κ)
  | branch (condition : β) (yes no : Stmt μ κ β α)
  | while_ (condition : β) (body : Stmt μ κ β α)
  /-- asks whether the thread owns the mutex -/
  | owns (mutex : μ) (yes no : Stmt μ κ β α)
  /-- the thread does not go on -/
  | halt

section Blocks
variable {μ κ β α : Type}

def Stmt.block : List (Stmt μ κ β α) → Stmt μ κ β α
  | [] => .skip
  | [stmt] => stmt
  | stmt :: rest => .seq stmt (.block rest)

def Stmt.scope (mutex : μ) (stmt : Stmt μ κ β α) : Stmt μ κ β α :=
  .block [.lock mutex, stmt, .unlock mutex]

def Stmt.wait (mutex : μ) : Stmt μ κ β α := .block [.unlock mutex, .lock mutex]

end Blocks

inductive Frame (μ κ β α : Type)
  | code (stmt : Stmt μ κ β α)
  | user

structure Thread (μ κ β α : Type) where
  held : List μ
  stack : List (Frame μ κ β α)

structure State (μ κ β α σ : Type) where
  threads : List (Thread μ κ β α)
  data : σ

structure Meaning (μ β α σ : Type) where
  recursive : μ → Bool
  test : β → σ → Option Bool
  apply : α → σ → σ

inductive Action (φ α : Type)
  | start
  | enter (thread : ℕ) (function : φ)
  | leave (thread : ℕ)
  | next (thread : ℕ) (choice : Bool)
  | change (change : α)

section Steps
variable {μ κ β α σ φ : Type} [DecidableEq μ] (meaning : Meaning μ β α σ)

def State.setThread (s : State μ κ β α σ) (i : ℕ) (thread : Thread μ κ β α) : State μ κ β α σ :=
  { s with threads := s.threads.set i thread }

/-- No other thread holds the mutex, and the thread itself only if it may lock it again. -/
def State.Free (s : State μ κ β α σ) (i : ℕ) (mutex : μ) : Prop :=
  ∀ j < s.threads.length, ∀ thread ∈ s.threads[j]?, mutex ∈ thread.held →
    j = i ∧ meaning.recursive mutex = true

instance (s : State μ κ β α σ) (i : ℕ) (mutex : μ) : Decidable (s.Free meaning i mutex) :=
  inferInstanceAs (Decidable (∀ j < s.threads.length, ∀ thread ∈ s.threads[j]?, _ → _))

def Meaning.allows (condition : β) (data : σ) (choice : Bool) : Prop :=
  ∀ value ∈ meaning.test condition data, value = choice

instance (condition : β) (data : σ) (choice : Bool) :
    Decidable (meaning.allows condition data choice) :=
  inferInstanceAs (Decidable (∀ _ ∈ _, _))

def exec (i : ℕ) (choice : Bool) (s : State μ κ β α σ) (held : List μ) (rest : List (Frame μ κ β α)) :
    Stmt μ κ β α → Option (State μ κ β α σ)
  | .skip => some (s.setThread i ⟨held, rest⟩)
  | .seq first second => some (s.setThread i ⟨held, .code first :: .code second :: rest⟩)
  | .lock mutex =>
    if s.Free meaning i mutex then some (s.setThread i ⟨mutex :: held, rest⟩) else none
  | .unlock mutex =>
    if mutex ∈ held then some (s.setThread i ⟨held.erase mutex, rest⟩) else none
  | .act change => some ({ s with data := meaning.apply change s.data }.setThread i ⟨held, rest⟩)
  | .callback _ => some (s.setThread i ⟨held, .user :: rest⟩)
  | .branch condition yes no =>
    if meaning.allows condition s.data choice then
      some (s.setThread i ⟨held, .code (if choice then yes else no) :: rest⟩)
    else none
  | .while_ condition body =>
    if meaning.allows condition s.data choice then
      some (s.setThread i
        ⟨held, if choice then .code body :: .code (.while_ condition body) :: rest else rest⟩)
    else none
  | .owns mutex yes no =>
    some (s.setThread i ⟨held, .code (if mutex ∈ held then yes else no) :: rest⟩)
  | .halt => none

def step (body : φ → Stmt μ κ β α) (s : State μ κ β α σ) : Action φ α → Option (State μ κ β α σ)
  | .start => some { s with threads := s.threads ++ [⟨[], [.user]⟩] }
  | .enter i function =>
    match s.threads[i]? with
    | some ⟨held, .user :: rest⟩ =>
      some (s.setThread i ⟨held, .code (body function) :: .user :: rest⟩)
    | _ => none
  | .leave i =>
    match s.threads[i]? with
    | some ⟨held, .user :: rest⟩ => some (s.setThread i ⟨held, rest⟩)
    | _ => none
  | .next i choice =>
    match s.threads[i]? with
    | some ⟨held, .code stmt :: rest⟩ => exec meaning i choice s held rest stmt
    | _ => none
  | .change change => some { s with data := meaning.apply change s.data }

/-- Unknown code runs without mutexes, and no mutex is locked twice that cannot be. -/
def Thread.Clear (thread : Thread μ κ β α) : Prop :=
  match thread.stack with
  | .user :: _ => thread.held = []
  | .code (.lock mutex) :: _ => mutex ∈ thread.held → meaning.recursive mutex = true
  | _ => True

instance : (thread : Thread μ κ β α) → Decidable (thread.Clear meaning)
  | ⟨held, .user :: _⟩ => inferInstanceAs (Decidable (held = []))
  | ⟨held, .code (.lock mutex) :: _⟩ =>
    inferInstanceAs (Decidable (mutex ∈ held → meaning.recursive mutex = true))
  | ⟨_, []⟩ | ⟨_, .code .skip :: _⟩ | ⟨_, .code (.seq _ _) :: _⟩ | ⟨_, .code (.unlock _) :: _⟩
  | ⟨_, .code (.act _) :: _⟩ | ⟨_, .code (.callback _) :: _⟩ | ⟨_, .code (.branch _ _ _) :: _⟩
  | ⟨_, .code (.while_ _ _) :: _⟩ | ⟨_, .code (.owns _ _ _) :: _⟩ | ⟨_, .code .halt :: _⟩ =>
    .isTrue trivial

end Steps

section Rules
variable {μ κ β α : Type} [DecidableEq μ] (recursive : μ → Bool) (never : β → Prop)

/-- The weakest precondition for the mutexes that are held, if the conditions in `never` do not come
    out true: no callback under a mutex, no mutex twice, and the postcondition at the end. -/
def pre : Stmt μ κ β α → (List μ → Prop) → List μ → Prop
  | .skip, post => post
  | .seq first second, post => pre first (pre second post)
  | .lock mutex, post => fun held => (mutex ∈ held → recursive mutex = true) ∧ post (mutex :: held)
  | .unlock mutex, post => fun held => post (held.erase mutex)
  | .act _, post => post
  | .callback _, post => fun held => held = [] ∧ post held
  | .branch condition yes no, post => fun held =>
    (¬ never condition → pre yes post held) ∧ pre no post held
  | .while_ _ body, post => fun held =>
    ∃ inv : List μ → Prop, inv held ∧ ∀ held, inv held → pre body inv held ∧ post held
  | .owns mutex yes no, post => fun held => if mutex ∈ held then pre yes post held else pre no post held
  | .halt, _ => fun _ => True

variable {recursive never} {stmt : Stmt μ κ β α} {post other : List μ → Prop} {held : List μ}

theorem pre_mono (h : pre recursive never stmt post held) (hpost : ∀ held, post held → other held) :
    pre recursive never stmt other held := by
  induction stmt generalizing post other held with
  | skip | unlock _ | act _ => exact hpost _ h
  | seq first second ihfirst ihsecond => exact ihfirst h fun _ hsecond => ihsecond hsecond hpost
  | lock _ => exact ⟨h.1, hpost _ h.2⟩
  | callback _ => exact ⟨h.1, hpost _ h.2⟩
  | branch condition yes no ihyes ihno => exact ⟨fun hc => ihyes (h.1 hc) hpost, ihno h.2 hpost⟩
  | while_ condition body ih =>
    rcases h with ⟨inv, hinv, hbody⟩
    exact ⟨inv, hinv, fun held hheld => ⟨(hbody held hheld).1, hpost held (hbody held hheld).2⟩⟩
  | owns mutex yes no ihyes ihno =>
    unfold pre at h ⊢
    split
    · rename_i hmem
      rw [if_pos hmem] at h
      exact ihyes h hpost
    · rename_i hmem
      rw [if_neg hmem] at h
      exact ihno h hpost
  | halt => trivial

@[simp] theorem pre_skip : pre recursive never (.skip : Stmt μ κ β α) post held ↔ post held := Iff.rfl

@[simp] theorem pre_seq {first second : Stmt μ κ β α} :
    pre recursive never (.seq first second) post held ↔
      pre recursive never first (pre recursive never second post) held := Iff.rfl

@[simp] theorem pre_lock {mutex : μ} :
    pre recursive never (.lock mutex : Stmt μ κ β α) post held ↔
      (mutex ∈ held → recursive mutex = true) ∧ post (mutex :: held) := Iff.rfl

@[simp] theorem pre_unlock {mutex : μ} :
    pre recursive never (.unlock mutex : Stmt μ κ β α) post held ↔ post (held.erase mutex) := Iff.rfl

@[simp] theorem pre_act {change : α} :
    pre recursive never (.act change : Stmt μ κ β α) post held ↔ post held := Iff.rfl

@[simp] theorem pre_callback {kind : κ} :
    pre recursive never (.callback kind : Stmt μ κ β α) post held ↔ held = [] ∧ post held := Iff.rfl

@[simp] theorem pre_branch {condition : β} {yes no : Stmt μ κ β α} :
    pre recursive never (.branch condition yes no) post held ↔
      (¬ never condition → pre recursive never yes post held) ∧
        pre recursive never no post held := Iff.rfl

@[simp] theorem pre_owns {mutex : μ} {yes no : Stmt μ κ β α} :
    pre recursive never (.owns mutex yes no) post held ↔
      if mutex ∈ held then pre recursive never yes post held
      else pre recursive never no post held := Iff.rfl

@[simp] theorem pre_halt : pre recursive never (.halt : Stmt μ κ β α) post held := trivial

@[simp] theorem pre_scope {mutex : μ} :
    pre recursive never (.scope mutex stmt) post held ↔ (mutex ∈ held → recursive mutex = true) ∧
      pre recursive never stmt (fun later => post (later.erase mutex)) (mutex :: held) := Iff.rfl

theorem pre_while {condition : β} {body : Stmt μ κ β α}
    (hbody : pre recursive never body (fun later => later = held) held) (hpost : post held) :
    pre recursive never (.while_ condition body) post held := by
  refine ⟨fun later => later = held, rfl, ?_⟩
  rintro later rfl
  exact ⟨hbody, hpost⟩

/-- A function that is called without mutexes is left without mutexes. -/
def Clean (recursive : μ → Bool) (never : β → Prop) (stmt : Stmt μ κ β α) : Prop :=
  pre recursive never stmt (fun held => held = []) []

theorem Clean.pre (h : Clean recursive never stmt) (hpost : post []) :
    pre recursive never stmt post [] :=
  pre_mono h fun _ hheld => by rw [hheld]; exact hpost

end Rules

section Soundness
variable {μ κ β α σ φ : Type} [DecidableEq μ] {meaning : Meaning μ β α σ} {never : β → Prop}
  {body : φ → Stmt μ κ β α} {s t : State μ κ β α σ}

def Kept (meaning : Meaning μ β α σ) (never : β → Prop) :
    List (Frame μ κ β α) → List μ → Prop
  | [] => fun _ => True
  | .code stmt :: rest => pre meaning.recursive never stmt (Kept meaning never rest)
  | .user :: rest => fun held => held = [] ∧ Kept meaning never rest []

def Thread.Avoids (meaning : Meaning μ β α σ) (never : β → Prop) (data : σ)
    (thread : Thread μ κ β α) : Prop :=
  match thread.stack with
  | .code (.branch condition _ _) :: _ => never condition → meaning.test condition data = some false
  | _ => True

instance [∀ condition, Decidable (never condition)] (data : σ) :
    (thread : Thread μ κ β α) → Decidable (thread.Avoids meaning never data)
  | ⟨_, .code (.branch condition _ _) :: _⟩ =>
    inferInstanceAs (Decidable (never condition → meaning.test condition data = some false))
  | ⟨_, []⟩ | ⟨_, .user :: _⟩ | ⟨_, .code .skip :: _⟩ | ⟨_, .code (.seq _ _) :: _⟩
  | ⟨_, .code (.lock _) :: _⟩ | ⟨_, .code (.unlock _) :: _⟩ | ⟨_, .code (.act _) :: _⟩
  | ⟨_, .code (.callback _) :: _⟩ | ⟨_, .code (.while_ _ _) :: _⟩ | ⟨_, .code (.owns _ _ _) :: _⟩
  | ⟨_, .code .halt :: _⟩ => .isTrue trivial

def Avoids (meaning : Meaning μ β α σ) (never : β → Prop) (s : State μ κ β α σ) : Action φ α → Prop
  | .next i _ => ∀ thread ∈ s.threads[i]?, thread.Avoids meaning never s.data
  | .start | .enter _ _ | .leave _ | .change _ => True

instance [∀ condition, Decidable (never condition)] (s : State μ κ β α σ) :
    (a : Action φ α) → Decidable (Avoids meaning never s a)
  | .next i _ =>
    inferInstanceAs (Decidable (∀ thread ∈ s.threads[i]?, thread.Avoids meaning never s.data))
  | .start | .enter _ _ | .leave _ | .change _ => .isTrue trivial

def Good (meaning : Meaning μ β α σ) (never : β → Prop) (s : State μ κ β α σ) : Prop :=
  ∀ thread ∈ s.threads, Kept meaning never thread.stack thread.held

theorem Good.setThread (h : Good meaning never s) {i : ℕ} {thread : Thread μ κ β α}
    (hthread : Kept meaning never thread.stack thread.held) :
    Good meaning never (s.setThread i thread) := by
  intro other hother
  rcases List.mem_or_eq_of_mem_set hother with hold | rfl
  · exact h other hold
  · exact hthread

/-- Unknown code has no mutex, and what is behind it goes on without one. -/
theorem Good.user (h : Good meaning never s) {i : ℕ} {held : List μ} {rest : List (Frame μ κ β α)}
    (hthread : s.threads[i]? = some ⟨held, .user :: rest⟩) :
    held = [] ∧ Kept meaning never rest [] :=
  h _ (List.mem_of_getElem? hthread)

theorem exec_good (h : Good meaning never s) {i : ℕ} {choice : Bool} {held : List μ}
    {rest : List (Frame μ κ β α)} {stmt : Stmt μ κ β α}
    (hpre : pre meaning.recursive never stmt (Kept meaning never rest) held)
    (hok : ∀ condition yes no, stmt = .branch condition yes no → never condition →
      meaning.test condition s.data = some false)
    (hstep : exec meaning i choice s held rest stmt = some t) : Good meaning never t := by
  cases stmt with
  | skip =>
    cases hstep
    exact h.setThread hpre
  | seq first second =>
    cases hstep
    exact h.setThread hpre
  | lock mutex =>
    rcases Option.ite_none_right_eq_some.1 hstep with ⟨-, ⟨⟩⟩
    exact h.setThread hpre.2
  | unlock mutex =>
    rcases Option.ite_none_right_eq_some.1 hstep with ⟨-, ⟨⟩⟩
    exact h.setThread hpre
  | act change =>
    cases hstep
    exact Good.setThread (s := { s with data := meaning.apply change s.data }) h hpre
  | callback kind =>
    cases hstep
    rcases hpre with ⟨rfl, hpost⟩
    exact h.setThread ⟨rfl, hpost⟩
  | branch condition yes no =>
    rcases Option.ite_none_right_eq_some.1 hstep with ⟨hallows, ⟨⟩⟩
    apply h.setThread
    cases choice with
    | true =>
      refine hpre.1 fun hnever => ?_
      exact absurd (hallows false (hok condition yes no rfl hnever)) (by decide)
    | false => exact hpre.2
  | while_ condition loop =>
    rcases Option.ite_none_right_eq_some.1 hstep with ⟨-, ⟨⟩⟩
    rcases hpre with ⟨inv, hinv, hloop⟩
    apply h.setThread
    cases choice with
    | true => exact pre_mono (hloop held hinv).1 fun later hlater => ⟨inv, hlater, hloop⟩
    | false => exact (hloop held hinv).2
  | owns mutex yes no =>
    cases hstep
    apply h.setThread
    unfold pre at hpre
    change pre meaning.recursive never (if mutex ∈ held then yes else no) _ held
    split
    · rename_i hmem
      rwa [if_pos hmem] at hpre
    · rename_i hmem
      rwa [if_neg hmem] at hpre
  | halt => cases hstep

theorem step_good (hbody : ∀ function, Clean meaning.recursive never (body function))
    (a : Action φ α) (h : Good meaning never s) (hok : Avoids meaning never s a)
    (hstep : step meaning body s a = some t) : Good meaning never t := by
  cases a with
  | start =>
    cases hstep
    intro thread hthread
    rcases List.mem_append.1 hthread with hold | hnew
    · exact h thread hold
    · rw [List.mem_singleton.1 hnew]
      exact ⟨rfl, trivial⟩
  | enter i function =>
    simp only [step] at hstep
    split at hstep
    · rename_i held rest hthread
      cases hstep
      rcases h.user hthread with ⟨rfl, hrest⟩
      exact h.setThread ((hbody function).pre ⟨rfl, hrest⟩)
    · cases hstep
  | leave i =>
    simp only [step] at hstep
    split at hstep
    · rename_i held rest hthread
      cases hstep
      rcases h.user hthread with ⟨rfl, hrest⟩
      exact h.setThread hrest
    · cases hstep
  | next i choice =>
    simp only [step] at hstep
    split at hstep
    · rename_i held stmt rest hthread
      refine exec_good h (h _ (List.mem_of_getElem? hthread)) ?_ hstep
      rintro condition yes no rfl hnever
      exact hok _ hthread hnever
    · cases hstep
  | change change =>
    cases hstep
    exact h

theorem Good.clear (h : Good meaning never s) : ∀ thread ∈ s.threads, thread.Clear meaning := by
  intro thread hthread
  have hkept := h thread hthread
  rcases thread with ⟨held, stack⟩
  unfold Thread.Clear
  dsimp only
  split
  · exact hkept.1
  · exact hkept.1
  · trivial

/-- If all functions are clean, then in every run in which the conditions in `never` do not come out
    true, unknown code runs without mutexes, and no mutex is locked twice that cannot be. -/
theorem clear_of_clean (hbody : ∀ function, Clean meaning.recursive never (body function)) {data : σ}
    (h : Reachable (step meaning body) (Avoids meaning never) ⟨[], data⟩ s) :
    ∀ thread ∈ s.threads, thread.Clear meaning :=
  (h.invariant (fun _ hthread => absurd hthread List.not_mem_nil)
    fun _ a _ => step_good hbody a).clear

end Soundness

end SomeIPRuntime.LockPrograms
