import SomeIPRuntime.LockPrograms

set_option autoImplicit false

namespace SomeIPRuntime.LockPrograms
open StepSystems

section Rules
variable {μ κ β α : Type} [DecidableEq μ] (recursive : μ → Bool) (rank : μ → ℕ) (never loose : β → Prop)

/-- The weakest precondition for the mutexes that are held: each is locked behind those of lower ranks,
    or again, only held ones are unlocked, and nothing is held where the thread does not go on. Loops
    have conditions in `loose`, and the conditions in `never` do not come out true. -/
def ordered : Stmt μ κ β α → (List μ → Prop) → List μ → Prop
  | .skip, post => post
  | .seq first second, post => ordered first (ordered second post)
  | .lock mutex, post => fun held =>
    ((mutex ∈ held ∧ recursive mutex = true) ∨ ∀ other ∈ held, rank other < rank mutex) ∧ post (mutex :: held)
  | .unlock mutex, post => fun held => mutex ∈ held ∧ post (held.erase mutex)
  | .act _, post => post
  | .callback _, post => fun held => held = [] ∧ post held
  | .branch condition yes no, post => fun held =>
    (¬ never condition → ordered yes post held) ∧ ordered no post held
  | .while_ condition body, post => fun held =>
    loose condition ∧ ∃ inv : List μ → Prop, inv held ∧ ∀ held, inv held → ordered body inv held ∧ post held
  | .owns mutex yes no, post => fun held =>
    if mutex ∈ held then ordered yes post held else ordered no post held
  | .halt, _ => fun held => held = []

variable {recursive rank never loose} {stmt : Stmt μ κ β α} {post other : List μ → Prop} {held : List μ}

theorem ordered_mono (h : ordered recursive rank never loose stmt post held)
    (hpost : ∀ held, post held → other held) : ordered recursive rank never loose stmt other held := by
  induction stmt generalizing post other held with
  | skip | act _ => exact hpost _ h
  | seq first second ihfirst ihsecond => exact ihfirst h fun _ hsecond => ihsecond hsecond hpost
  | lock _ | unlock _ | callback _ => exact ⟨h.1, hpost _ h.2⟩
  | branch condition yes no ihyes ihno => exact ⟨fun hc => ihyes (h.1 hc) hpost, ihno h.2 hpost⟩
  | while_ condition body ih =>
    rcases h with ⟨hloose, inv, hinv, hbody⟩
    exact ⟨hloose, inv, hinv, fun held hheld => ⟨(hbody held hheld).1, hpost held (hbody held hheld).2⟩⟩
  | owns mutex yes no ihyes ihno =>
    unfold ordered at h ⊢
    split
    · rename_i hmem
      rw [if_pos hmem] at h
      exact ihyes h hpost
    · rename_i hmem
      rw [if_neg hmem] at h
      exact ihno h hpost
  | halt => exact h

@[simp] theorem ordered_skip :
    ordered recursive rank never loose (.skip : Stmt μ κ β α) post held ↔ post held := Iff.rfl

@[simp] theorem ordered_seq {first second : Stmt μ κ β α} :
    ordered recursive rank never loose (.seq first second) post held ↔
      ordered recursive rank never loose first (ordered recursive rank never loose second post) held := Iff.rfl

@[simp] theorem ordered_lock {mutex : μ} :
    ordered recursive rank never loose (.lock mutex : Stmt μ κ β α) post held ↔
      ((mutex ∈ held ∧ recursive mutex = true) ∨ ∀ other ∈ held, rank other < rank mutex) ∧
        post (mutex :: held) := Iff.rfl

@[simp] theorem ordered_unlock {mutex : μ} :
    ordered recursive rank never loose (.unlock mutex : Stmt μ κ β α) post held ↔
      mutex ∈ held ∧ post (held.erase mutex) := Iff.rfl

@[simp] theorem ordered_act {change : α} :
    ordered recursive rank never loose (.act change : Stmt μ κ β α) post held ↔ post held := Iff.rfl

@[simp] theorem ordered_callback {kind : κ} :
    ordered recursive rank never loose (.callback kind : Stmt μ κ β α) post held ↔ held = [] ∧ post held :=
  Iff.rfl

@[simp] theorem ordered_branch {condition : β} {yes no : Stmt μ κ β α} :
    ordered recursive rank never loose (.branch condition yes no) post held ↔
      (¬ never condition → ordered recursive rank never loose yes post held) ∧
        ordered recursive rank never loose no post held := Iff.rfl

@[simp] theorem ordered_owns {mutex : μ} {yes no : Stmt μ κ β α} :
    ordered recursive rank never loose (.owns mutex yes no) post held ↔
      if mutex ∈ held then ordered recursive rank never loose yes post held
      else ordered recursive rank never loose no post held := Iff.rfl

theorem ordered_owned {mutex : μ} {yes no : Stmt μ κ β α} (hmem : mutex ∈ held)
    (h : ordered recursive rank never loose yes post held) :
    ordered recursive rank never loose (.owns mutex yes no) post held := by
  rw [ordered_owns, if_pos hmem]
  exact h

@[simp] theorem ordered_halt :
    ordered recursive rank never loose (.halt : Stmt μ κ β α) post held ↔ held = [] := Iff.rfl

@[simp] theorem ordered_scope {mutex : μ} :
    ordered recursive rank never loose (.scope mutex stmt) post held ↔
      ((mutex ∈ held ∧ recursive mutex = true) ∨ ∀ other ∈ held, rank other < rank mutex) ∧
        ordered recursive rank never loose stmt
          (fun later => mutex ∈ later ∧ post (later.erase mutex)) (mutex :: held) := Iff.rfl

theorem ordered_while {condition : β} {body : Stmt μ κ β α} (hloose : loose condition)
    (hbody : ordered recursive rank never loose body (fun later => later = held) held) (hpost : post held) :
    ordered recursive rank never loose (.while_ condition body) post held := by
  refine ⟨hloose, fun later => later = held, rfl, ?_⟩
  rintro later rfl
  exact ⟨hbody, hpost⟩

/-- A function that is called without mutexes keeps to the order, and is left without mutexes. -/
def Orderly (recursive : μ → Bool) (rank : μ → ℕ) (never loose : β → Prop) (stmt : Stmt μ κ β α) : Prop :=
  ordered recursive rank never loose stmt (fun held => held = []) []

theorem Orderly.ordered (h : Orderly recursive rank never loose stmt) (hpost : post []) :
    ordered recursive rank never loose stmt post [] :=
  ordered_mono h fun _ hheld => by rw [hheld]; exact hpost

end Rules

section Kept
variable {μ κ β α σ φ : Type} [DecidableEq μ] {meaning : Meaning μ β α σ} {rank : μ → ℕ} {never loose : β → Prop}
  {body : φ → Stmt μ κ β α} {s t : State μ κ β α σ}

/-- What is on the stack keeps to the order, and leaves no mutex behind. -/
def InOrder (meaning : Meaning μ β α σ) (rank : μ → ℕ) (never loose : β → Prop) :
    List (Frame μ κ β α) → List μ → Prop
  | [] => fun held => held = []
  | .code stmt :: rest =>
    ordered meaning.recursive rank never loose stmt (InOrder meaning rank never loose rest)
  | .user :: rest => fun held => held = [] ∧ InOrder meaning rank never loose rest []

def Exclusive (s : State μ κ β α σ) : Prop :=
  ∀ (i j : ℕ) (first second : Thread μ κ β α) (mutex : μ), s.threads[i]? = some first →
    s.threads[j]? = some second → mutex ∈ first.held → mutex ∈ second.held → i = j

structure Orderable (meaning : Meaning μ β α σ) (rank : μ → ℕ) (never loose : β → Prop)
    (s : State μ κ β α σ) : Prop where
  exclusive : Exclusive s
  inOrder : ∀ thread ∈ s.threads, InOrder meaning rank never loose thread.stack thread.held

omit [DecidableEq μ] in
theorem setThread_get (s : State μ κ β α σ) (i j : ℕ) (thread : Thread μ κ β α) :
    (s.setThread i thread).threads[j]? =
      if i = j then (if i < s.threads.length then some thread else none) else s.threads[j]? :=
  List.getElem?_set

/-- A thread that holds no more than before, or what no other thread holds. -/
theorem Orderable.setThread (h : Orderable meaning rank never loose s) {i : ℕ} {old thread : Thread μ κ β α}
    (hget : s.threads[i]? = some old)
    (hheld : ∀ mutex ∈ thread.held, mutex ∈ old.held ∨ s.Free meaning i mutex)
    (hthread : InOrder meaning rank never loose thread.stack thread.held) :
    Orderable meaning rank never loose (s.setThread i thread) := by
  have halone : ∀ j other mutex, s.threads[j]? = some other → mutex ∈ other.held → mutex ∈ thread.held → j = i := by
    intro j other mutex hother hmem hmine
    rcases hheld mutex hmine with hold | hfree
    · exact h.exclusive j i other old mutex hother hget hmem hold
    · exact (hfree j (List.getElem?_eq_some_iff.1 hother).1 other hother hmem).1
  refine ⟨fun j k first second mutex hfirst hsecond hmem hmem' => ?_, fun other hother => ?_⟩
  · rw [setThread_get] at hfirst hsecond
    split at hfirst <;> split at hsecond
    · omega
    · rename_i hj _
      rw [if_pos (List.getElem?_eq_some_iff.1 hget).1] at hfirst
      cases hfirst
      exact hj.symm.trans (halone k second mutex hsecond hmem' hmem).symm
    · rename_i _ hk
      rw [if_pos (List.getElem?_eq_some_iff.1 hget).1] at hsecond
      cases hsecond
      exact (halone j first mutex hfirst hmem hmem').trans hk
    · exact h.exclusive j k first second mutex hfirst hsecond hmem hmem'
  · rcases List.mem_or_eq_of_mem_set hother with hold | rfl
    · exact h.inOrder other hold
    · exact hthread

theorem Orderable.top (h : Orderable meaning rank never loose s) {i : ℕ} {thread : Thread μ κ β α}
    (hget : s.threads[i]? = some thread) : InOrder meaning rank never loose thread.stack thread.held :=
  h.inOrder thread (List.mem_of_getElem? hget)

theorem exec_orderable (h : Orderable meaning rank never loose s) {i : ℕ} {choice : Bool} {held : List μ}
    {rest : List (Frame μ κ β α)} {stmt : Stmt μ κ β α} (hget : s.threads[i]? = some ⟨held, .code stmt :: rest⟩)
    (hok : ∀ condition yes no, stmt = .branch condition yes no → never condition →
      meaning.test condition s.data = some false)
    (hstep : exec meaning i choice s held rest stmt = some t) : Orderable meaning rank never loose t := by
  have htop : ordered meaning.recursive rank never loose stmt (InOrder meaning rank never loose rest) held :=
    h.top hget
  have hsame : ∀ mutex ∈ held, mutex ∈ held ∨ s.Free meaning i mutex := fun _ hmem => Or.inl hmem
  cases stmt with
  | skip | seq first second =>
    cases hstep
    exact h.setThread hget hsame htop
  | lock mutex =>
    rcases Option.ite_none_right_eq_some.1 hstep with ⟨hfree, ⟨⟩⟩
    refine h.setThread hget (fun other hmem => ?_) htop.2
    rcases List.mem_cons.1 hmem with rfl | hmem
    · exact Or.inr hfree
    · exact Or.inl hmem
  | unlock mutex =>
    rcases Option.ite_none_right_eq_some.1 hstep with ⟨-, ⟨⟩⟩
    exact h.setThread hget (fun other hmem => Or.inl (List.mem_of_mem_erase hmem)) htop.2
  | act change =>
    cases hstep
    have hchanged : Orderable meaning rank never loose { s with data := meaning.apply change s.data } :=
      ⟨h.exclusive, h.inOrder⟩
    exact hchanged.setThread hget hsame htop
  | callback kind =>
    cases hstep
    rcases htop with ⟨rfl, hpost⟩
    exact h.setThread hget hsame ⟨rfl, hpost⟩
  | branch condition yes no =>
    rcases Option.ite_none_right_eq_some.1 hstep with ⟨hallows, ⟨⟩⟩
    apply h.setThread hget hsame
    cases choice with
    | true =>
      refine htop.1 fun hnever => ?_
      exact absurd (hallows false (hok condition yes no rfl hnever)) (by decide)
    | false => exact htop.2
  | while_ condition loop =>
    rcases Option.ite_none_right_eq_some.1 hstep with ⟨-, ⟨⟩⟩
    rcases htop with ⟨hloose, inv, hinv, hloop⟩
    apply h.setThread hget hsame
    cases choice with
    | true => exact ordered_mono (hloop held hinv).1 fun later hlater => ⟨hloose, inv, hlater, hloop⟩
    | false => exact (hloop held hinv).2
  | owns mutex yes no =>
    cases hstep
    apply h.setThread hget hsame
    unfold ordered at htop
    change ordered meaning.recursive rank never loose (if mutex ∈ held then yes else no) _ held
    split
    · rename_i hmem
      rwa [if_pos hmem] at htop
    · rename_i hmem
      rwa [if_neg hmem] at htop
  | halt => cases hstep

theorem step_orderable (hbody : ∀ function, Orderly meaning.recursive rank never loose (body function))
    (a : Action φ α) (h : Orderable meaning rank never loose s) (hok : Avoids meaning never s a)
    (hstep : step meaning body s a = some t) : Orderable meaning rank never loose t := by
  cases a with
  | start =>
    cases hstep
    refine ⟨fun i j first second mutex hfirst hsecond hmem hmem' => ?_, fun thread hthread => ?_⟩
    · have hold : ∀ (k : ℕ) (thread : Thread μ κ β α), (s.threads ++ [⟨[], [.user]⟩])[k]? = some thread →
          mutex ∈ thread.held → s.threads[k]? = some thread := by
        intro k thread hget hmem
        by_cases hk : k < s.threads.length
        · rwa [List.getElem?_append_left hk] at hget
        · rw [List.getElem?_append_right (Nat.le_of_not_lt hk)] at hget
          rw [List.mem_singleton.1 (List.mem_of_getElem? hget)] at hmem
          cases hmem
      exact h.exclusive i j first second mutex (hold i first hfirst hmem) (hold j second hsecond hmem') hmem hmem'
    · rcases List.mem_append.1 hthread with hold | hnew
      · exact h.inOrder thread hold
      · rw [List.mem_singleton.1 hnew]
        exact ⟨rfl, rfl⟩
  | enter i function =>
    simp only [step] at hstep
    split at hstep
    · rename_i held rest hthread
      cases hstep
      rcases h.top hthread with ⟨rfl, hrest⟩
      exact h.setThread hthread (fun _ hmem => Or.inl hmem) ((hbody function).ordered ⟨rfl, hrest⟩)
    · cases hstep
  | leave i =>
    simp only [step] at hstep
    split at hstep
    · rename_i held rest hthread
      cases hstep
      rcases h.top hthread with ⟨rfl, hrest⟩
      exact h.setThread hthread (fun _ hmem => Or.inl hmem) hrest
    · cases hstep
  | next i choice =>
    simp only [step] at hstep
    split at hstep
    · rename_i held stmt rest hthread
      refine exec_orderable h hthread ?_ hstep
      rintro condition yes no rfl hnever
      exact hok _ hthread hnever
    · cases hstep
  | change change =>
    cases hstep
    exact ⟨h.exclusive, h.inOrder⟩

theorem reachable_orderable (hbody : ∀ function, Orderly meaning.recursive rank never loose (body function))
    {data : σ} (h : Reachable (step meaning body) (Avoids meaning never) ⟨[], data⟩ s) :
    Orderable meaning rank never loose s :=
  h.invariant ⟨fun _ _ _ _ _ hfirst => (by cases hfirst), fun _ hthread => absurd hthread List.not_mem_nil⟩
    fun _ a _ => step_orderable hbody a

end Kept

section Progress
variable {μ κ β α σ φ : Type} [DecidableEq μ] {meaning : Meaning μ β α σ} {rank : μ → ℕ} {never loose : β → Prop}
  {body : φ → Stmt μ κ β α} {s t : State μ κ β α σ}

def Highest (rank : μ → ℕ) (s : State μ κ β α σ) (i : ℕ) (thread : Thread μ κ β α) (mutex : μ) : Prop :=
  s.threads[i]? = some thread ∧ mutex ∈ thread.held ∧
    ∀ other ∈ s.threads, ∀ held ∈ other.held, rank held ≤ rank mutex

theorem exists_highest (rank : μ → ℕ) (h : ∃ thread ∈ s.threads, thread.held ≠ []) :
    ∃ i thread mutex, Highest rank s i thread mutex := by
  rcases h with ⟨holder, hholder, hne⟩
  rcases List.exists_mem_of_ne_nil _ hne with ⟨one, hone⟩
  have hall : (s.threads.flatMap Thread.held).toFinset.Nonempty :=
    ⟨one, List.mem_toFinset.2 (List.mem_flatMap.2 ⟨holder, hholder, hone⟩)⟩
  rcases Finset.exists_max_image _ rank hall with ⟨mutex, hmutex, hmax⟩
  rcases List.mem_flatMap.1 (List.mem_toFinset.1 hmutex) with ⟨thread, hthread, hheld⟩
  rcases List.getElem?_of_mem hthread with ⟨i, hget⟩
  exact ⟨i, thread, mutex, hget, hheld, fun other hother held hmem =>
    hmax held (List.mem_toFinset.2 (List.mem_flatMap.2 ⟨other, hother, hmem⟩))⟩

def Stmt.size : Stmt μ κ β α → ℕ
  | .skip | .lock _ | .unlock _ | .act _ | .callback _ | .while_ _ _ | .halt => 1
  | .seq first second => first.size + second.size + 1
  | .branch _ yes no | .owns _ yes no => yes.size + no.size + 1

def Frame.size : Frame μ κ β α → ℕ
  | .code stmt => stmt.size
  | .user => 0

def Thread.size (thread : Thread μ κ β α) : ℕ := (thread.stack.map Frame.size).sum

def State.size (s : State μ κ β α σ) : ℕ := (s.threads.map Thread.size).sum

theorem sum_set {γ : Type} (f : γ → ℕ) {items : List γ} {i : ℕ} {old : γ} (h : items[i]? = some old) (item : γ) :
    ((items.set i item).map f).sum + f old = (items.map f).sum + f item := by
  induction items generalizing i with
  | nil => cases h
  | cons first rest ih =>
    cases i with
    | zero =>
      cases h
      simp only [List.set_cons_zero, List.map_cons, List.sum_cons]
      omega
    | succ i =>
      have hrest := ih h
      simp only [List.set_cons_succ, List.map_cons, List.sum_cons]
      omega

omit [DecidableEq μ] in
theorem setThread_size {i : ℕ} {old thread : Thread μ κ β α} (hget : s.threads[i]? = some old)
    (hless : thread.size < old.size) : (s.setThread i thread).size < s.size := by
  have hsum := sum_set Thread.size hget thread
  unfold State.size State.setThread
  dsimp only
  omega

/-- The thread with the highest mutex can go on, and has less to do then. -/
theorem goes_on (h : Orderable meaning rank never loose s)
    (hloose : ∀ condition data, loose condition → meaning.test condition data ≠ some true) {i : ℕ} {held : List μ}
    {stmt : Stmt μ κ β α} {rest : List (Frame μ κ β α)} {mutex : μ}
    (hhighest : Highest rank s i ⟨held, .code stmt :: rest⟩ mutex) :
    ∃ choice t, exec meaning i choice s held rest stmt = some t ∧ t.size < s.size := by
  rcases hhighest with ⟨hget, hheld, hmax⟩
  have htop : ordered meaning.recursive rank never loose stmt (InOrder meaning rank never loose rest) held :=
    h.top hget
  have hless : ∀ later : Thread μ κ β α, later.size < stmt.size + (rest.map Frame.size).sum →
      (s.setThread i later).size < s.size := fun later hlater => setThread_size hget hlater
  cases stmt with
  | skip => exact ⟨true, _, rfl, hless _ (by simp only [Thread.size, Stmt.size]; omega)⟩
  | seq first second =>
    refine ⟨true, _, rfl, hless _ ?_⟩
    simp only [Thread.size, Stmt.size, Frame.size, List.map_cons, List.sum_cons]
    omega
  | lock wanted =>
    have hfree : s.Free meaning i wanted := by
      intro j hj other hother hmem
      rcases htop.1 with ⟨hmine, hrecursive⟩ | hlower
      · exact ⟨h.exclusive j i other _ wanted hother hget hmem hmine, hrecursive⟩
      · have habove := hmax other (List.mem_of_getElem? hother) wanted hmem
        have hbelow := hlower mutex hheld
        omega
    exact ⟨true, _, if_pos hfree, hless _ (by simp only [Thread.size, Stmt.size]; omega)⟩
  | unlock owned => exact ⟨true, _, if_pos htop.1, hless _ (by simp only [Thread.size, Stmt.size]; omega)⟩
  | act change =>
    refine ⟨true, _, rfl, ?_⟩
    exact hless ⟨held, rest⟩ (by simp only [Thread.size, Stmt.size]; omega)
  | callback kind =>
    rw [htop.1] at hheld
    cases hheld
  | branch condition yes no =>
    have hallows : meaning.allows condition s.data (meaning.test condition s.data = some true) := by
      intro value hvalue
      rw [Option.mem_def.1 hvalue]
      cases value <;> rfl
    refine ⟨_, _, if_pos hallows, hless _ ?_⟩
    simp only [Thread.size, Stmt.size, Frame.size, List.map_cons, List.sum_cons]
    split <;> omega
  | while_ condition loop =>
    have hallows : meaning.allows condition s.data false := by
      intro value hvalue
      cases value with
      | false => rfl
      | true => exact absurd hvalue (hloose condition s.data htop.1)
    exact ⟨false, _, if_pos hallows, hless _ (by simp [Thread.size, Stmt.size])⟩
  | owns owned yes no =>
    refine ⟨true, _, rfl, hless _ ?_⟩
    simp only [Thread.size, Stmt.size, Frame.size, List.map_cons, List.sum_cons]
    split <;> omega
  | halt =>
    rw [show held = [] from htop] at hheld
    cases hheld

theorem holder_goes_on (h : Orderable meaning rank never loose s)
    (hloose : ∀ condition data, loose condition → meaning.test condition data ≠ some true)
    (hholds : ∃ thread ∈ s.threads, thread.held ≠ []) (body : φ → Stmt μ κ β α) :
    ∃ i thread choice t, s.threads[i]? = some thread ∧ thread.held ≠ [] ∧
      step meaning body s (.next i choice) = some t ∧ t.size < s.size := by
  rcases exists_highest rank hholds with ⟨i, ⟨held, stack⟩, mutex, hhighest⟩
  have htop := h.top hhighest.1
  have hne : held ≠ [] := List.ne_nil_of_mem hhighest.2.1
  cases stack with
  | nil => exact absurd htop hne
  | cons frame rest =>
    cases frame with
    | user => exact absurd htop.1 hne
    | code stmt =>
      rcases goes_on h hloose hhighest with ⟨choice, t, hexec, hsize⟩
      refine ⟨i, _, choice, t, hhighest.1, hne, ?_, hsize⟩
      simp only [step, hhighest.1]
      exact hexec

/-- The threads go on by themselves: no thread starts, and unknown code does nothing. -/
def OnTheirOwn (actions : List (Action φ α)) : Prop := ∀ a ∈ actions, ∃ i choice, a = .next i choice

/-- The mutexes are free, or a condition comes out true that is in `never`. -/
theorem mutexes_come_free (hbody : ∀ function, Orderly meaning.recursive rank never loose (body function))
    (hloose : ∀ condition data, loose condition → meaning.test condition data ≠ some true)
    (h : Orderable meaning rank never loose s) :
    ∃ actions t, OnTheirOwn actions ∧ run (step meaning body) s actions = some t ∧
      ((∀ thread ∈ t.threads, thread.held = []) ∨ ∃ i choice, ¬ Avoids meaning never t (.next i choice : Action φ α)) := by
  induction hn : s.size using Nat.strong_induction_on generalizing s with
  | _ n ih =>
    by_cases hholds : ∃ thread ∈ s.threads, thread.held ≠ []
    · rcases holder_goes_on h hloose hholds body with ⟨i, thread, choice, t, -, -, hstep, hless⟩
      by_cases hok : Avoids meaning never s (.next i choice : Action φ α)
      · rcases ih t.size (hn ▸ hless) (step_orderable hbody _ h hok hstep) rfl with ⟨actions, u, hown, hrun, hend⟩
        refine ⟨.next i choice :: actions, u, fun a ha => ?_, ?_, hend⟩
        · rcases List.mem_cons.1 ha with rfl | ha
          · exact ⟨i, choice, rfl⟩
          · exact hown a ha
        · simp only [run, hstep]
          exact hrun
      · exact ⟨[], s, fun _ ha => (by cases ha), rfl, Or.inr ⟨i, choice, hok⟩⟩
    · refine ⟨[], s, fun _ ha => (by cases ha), rfl, Or.inl fun thread hthread => ?_⟩
      by_contra hne
      exact hholds ⟨thread, hthread, hne⟩

end Progress

end SomeIPRuntime.LockPrograms
