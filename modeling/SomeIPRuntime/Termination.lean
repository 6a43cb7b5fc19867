import SomeIPRuntime.CursorSafety
import SomeIPRuntime.Progress

set_option autoImplicit false

namespace SomeIPRuntime.InputStream
open Bits ProgramRuns Deployment

section Fuel
variable {α β γ κ ν : Type} [DecidableEq κ] {fuel fuel' : ℕ}

theorem readFields_approximates {first first' : Read α} {rest rest' : Read β}
    (hfirst : Approximates .outOfFuel first first') (hrest : Approximates .outOfFuel rest rest') :
    Approximates .outOfFuel (readFields first rest) (readFields first' rest') :=
  approximates_bind hfirst fun _ => approximates_bind hrest fun _ => approximates_refl _

theorem unlessError_approximates (value : α) {tail tail' : Read α}
    (htail : Approximates .outOfFuel tail tail') :
    Approximates .outOfFuel (do if ← hasError then pure value else tail)
      (do if ← hasError then pure value else tail') :=
  approximates_bind (approximates_refl _) fun _ => approximates_ite (approximates_refl _) htail

theorem map_approximates (f : α → β) {x x' : Read α} (hx : Approximates .outOfFuel x x') :
    Approximates .outOfFuel (f <$> x) (f <$> x') :=
  approximates_bind hx fun _ => approximates_refl _

theorem readStruct_approximates (depl : Option StructDeployment) {fields fields' : Read α}
    (hfields : Approximates .outOfFuel fields fields') :
    Approximates .outOfFuel (readStruct depl fields) (readStruct depl fields') := by
  refine approximates_bind (approximates_refl _) fun _ => ?_
  refine approximates_bind (approximates_refl _) fun itsSize => unlessError_approximates none ?_
  refine approximates_bind (approximates_refl _) fun start => ?_
  exact approximates_bind hfields fun _ => approximates_refl _

theorem visitAlternative_approximates {alternatives : List (ℕ → Read α)}
    (halternatives : ∀ d ∈ alternatives, Approximates .outOfFuel (d fuel) (d fuel'))
    (valueType : ℕ) :
    Approximates .outOfFuel (visitAlternative (alternatives.map fun d => d fuel) valueType)
      (visitAlternative (alternatives.map fun d => d fuel') valueType) := by
  unfold visitAlternative
  rw [List.length_map, List.length_map]
  refine approximates_ite ?_ (approximates_refl _)
  rw [List.getElem?_map, List.getElem?_map]
  cases hget : alternatives[alternatives.length - valueType]? with
  | none => exact approximates_refl _
  | some d => exact map_approximates some (halternatives d (List.mem_of_getElem? hget))

theorem readVariant_approximates (uninitialised : ℕ × ℕ) (depl : Option VariantDeployment)
    {alternatives : List (ℕ → Read α)}
    (halternatives : ∀ d ∈ alternatives, Approximates .outOfFuel (d fuel) (d fuel')) :
    Approximates .outOfFuel (readVariant uninitialised depl (alternatives.map fun d => d fuel))
      (readVariant uninitialised depl (alternatives.map fun d => d fuel')) := by
  refine approximates_bind (approximates_refl _) fun _ => ?_
  refine approximates_bind (approximates_refl _) fun header => ?_
  obtain ⟨itsSize, itsType⟩ := header
  have hbody := @unlessError_approximates (ℕ × Option α) (0, none)
    (readAlternative (if (depl.map (·.unionLengthWidth)).getD 4 ≠ 0 then itsSize
      else (depl.map (·.unionMaxLength)).getD 0) itsType (alternatives.map fun d => d fuel))
    (readAlternative (if (depl.map (·.unionLengthWidth)).getD 4 ≠ 0 then itsSize
      else (depl.map (·.unionMaxLength)).getD 0) itsType (alternatives.map fun d => d fuel')) ?_
  · exact approximates_ite (approximates_bind (approximates_refl _) fun _ => hbody) hbody
  · unfold readAlternative
    rw [List.length_map, List.length_map]
    refine approximates_bind (approximates_refl _) fun start => ?_
    exact approximates_bind (visitAlternative_approximates halternatives _) fun _ =>
      approximates_refl _

theorem readElements_approximates (lengthWidth maxLength : ℕ) (size : γ → ℕ)
    {read read' : γ → Read (Option γ)} (hread : ∀ v, Approximates .outOfFuel (read v) (read' v))
    (hfuel : fuel ≤ fuel') (itsSize : ℕ) (value : γ) :
    Approximates .outOfFuel (readElements lengthWidth maxLength size read fuel itsSize value)
      (readElements lengthWidth maxLength size read' fuel' itsSize value) := by
  induction fuel generalizing fuel' itsSize value with
  | zero =>
    intro s
    by_cases hmore : itsSize > 0 ∨ (lengthWidth = 0 ∧ size value < maxLength)
    · left
      rw [readElements, if_pos hmore]
      rfl
    · right
      rw [readElements_done _ hmore, readElements_done _ hmore]
  | succ fuel ih =>
    obtain ⟨fuel', rfl⟩ : ∃ n, fuel' = n + 1 := ⟨fuel' - 1, by omega⟩
    rw [readElements, readElements]
    refine approximates_ite ?_ (approximates_refl _)
    refine approximates_bind (approximates_refl _) fun start => ?_
    refine approximates_bind (hread value) fun result => ?_
    cases result with
    | none => exact approximates_refl _
    | some value =>
      exact approximates_bind (approximates_refl _) fun stop => ih (by omega) _ _

theorem readVector_approximates (depl : Option ArrayDeployment) {element element' : Read α}
    (helement : Approximates .outOfFuel element element') (hfuel : fuel ≤ fuel') :
    Approximates .outOfFuel (readVector fuel depl element) (readVector fuel' depl element') := by
  refine approximates_bind (approximates_refl _) fun _ => ?_
  refine approximates_bind (approximates_refl _) fun itsSize => unlessError_approximates [] ?_
  refine approximates_bind (readElements_approximates _ _ _ (fun value => ?_) hfuel _ _)
    fun _ => approximates_refl _
  exact approximates_bind helement fun _ => approximates_refl _

theorem readEntry_approximates {key key' : Read κ} {mapped mapped' : Read ν}
    (hkey : Approximates .outOfFuel key key') (hmapped : Approximates .outOfFuel mapped mapped')
    (value : List (κ × ν)) :
    Approximates .outOfFuel (readEntry key mapped value) (readEntry key' mapped' value) :=
  approximates_bind hkey fun _ => unlessError_approximates none <|
    approximates_bind hmapped fun _ => approximates_refl _

theorem readMap_approximates (depl : Option MapDeployment) {key key' : Read κ}
    {mapped mapped' : Read ν} (hkey : Approximates .outOfFuel key key')
    (hmapped : Approximates .outOfFuel mapped mapped') (hfuel : fuel ≤ fuel') :
    Approximates .outOfFuel (readMap fuel depl key mapped) (readMap fuel' depl key' mapped') := by
  refine approximates_bind (approximates_refl _) fun _ => ?_
  refine approximates_bind (approximates_refl _) fun itsSize => ?_
  refine approximates_bind (unlessError_approximates _ ?_) fun _ => approximates_refl _
  exact readElements_approximates _ _ _ (readEntry_approximates hkey hmapped) hfuel _ _

theorem readMapEmpty_approximates {key key' : Read κ} {mapped mapped' : Read ν}
    (hkey : Approximates .outOfFuel key key') (hmapped : Approximates .outOfFuel mapped mapped')
    (hfuel : fuel ≤ fuel') :
    Approximates .outOfFuel (readMapEmpty fuel key mapped) (readMapEmpty fuel' key' mapped') := by
  refine approximates_bind (approximates_refl _) fun _ => ?_
  refine approximates_bind (approximates_refl _) fun itsSize => ?_
  exact approximates_bind
    (readElements_approximates _ _ _ (readEntry_approximates hkey hmapped) hfuel _ _)
    fun _ => approximates_refl _

/-- A decoder that has not run out of iterations does the same with more of them. -/
theorem Decoder.approximates {d : ℕ → Read α} (hd : Decoder d) (hfuel : fuel ≤ fuel') :
    Approximates .outOfFuel (d fuel) (d fuel') := by
  induction hd with
  | bool | integer | float | double | rangedInteger | enumeration | version | string | byteBuffer
    | noFields | byteVector => exact approximates_refl _
  | fields _ _ ihfirst ihrest => exact readFields_approximates ihfirst ihrest
  | structEmpty _ ih =>
    exact approximates_bind (approximates_refl _) fun _ =>
      unlessError_approximates none (map_approximates some ih)
  | struct depl _ ih => exact readStruct_approximates depl ih
  | polymorphicStruct _ ih =>
    exact approximates_bind (approximates_refl _) fun _ =>
      approximates_bind (approximates_refl _) fun serial =>
        unlessError_approximates none (map_approximates some (ih serial))
  | variant uninitialised depl _ ih => exact readVariant_approximates uninitialised depl ih
  | vector depl _ ih => exact readVector_approximates depl ih hfuel
  | map depl _ _ ihkey ihmapped => exact readMap_approximates depl ihkey ihmapped hfuel
  | mapEmpty _ _ ihkey ihmapped => exact readMapEmpty_approximates ihkey ihmapped hfuel
  | convert f _ ih => exact map_approximates f ih

end Fuel

def nothing : InputStream := create ⟨[], by decide⟩ true

def QuietAtEnd {α : Type} (d : ℕ → Read α) : Prop :=
  ∃ fuel a t, d fuel nothing = .ok a t ∧ t.errorOccurred = false

/-- A covered run returns after a number of iterations that depends on the length of the
    payload only. -/
def Terminates {α : Type} (d : ℕ → Read α) : Prop :=
  ∃ bound : ℕ → ℕ, ∀ s, Good s → ∀ fuel ≥ bound s.message.body.length,
    AllCovered (finalState (d fuel s)).history → ∃ a t, d fuel s = .ok a t

theorem create_sound (message : Message) (isLittleEndian : Bool) :
    Sound (create message isLittleEndian) :=
  ⟨Nat.zero_lt_succ 7, fun _ => Nat.zero_add _⟩

theorem Decoder.forward {α : Type} {d : ℕ → Read α} (hd : Decoder d) (fuel : ℕ) :
    Forward (d fuel) := (hd.steady fuel).forward

/-- What succeeds on an empty payload succeeds wherever the payload is used up. -/
theorem Decoder.quiet {α : Type} {d : ℕ → Read α} (hd : Decoder d) (hquiet : QuietAtEnd d) :
    ∃ enough a, ∀ fuel ≥ enough, ∀ u, AtEnd u → u.errorOccurred = false →
      ∃ v, d fuel u = .ok a v ∧ AtEnd v ∧ v.errorOccurred = false := by
  obtain ⟨enough, a, t, hrun, herror⟩ := hquiet
  refine ⟨enough, a, fun fuel hfuel u hu huerr => ?_⟩
  have hrun := (hd.approximates hfuel).ok hrun
  have hsound : Sound nothing := create_sound _ _
  have hleft : left t = left nothing := by
    have hle := ((hd.forward fuel).ok hrun).left_le hsound
    have hzero : left nothing = 0 := rfl
    omega
  obtain ⟨v, hv, hend, hverr⟩ := (hd.steady fuel).stalls nothing hsound a t hrun hleft u hu huerr
  exact ⟨v, hv, hend, hverr.trans herror⟩

/-- What does not succeed on an empty payload moves the cursor when it succeeds. -/
theorem Decoder.moves {α : Type} {d : ℕ → Read α} (hd : Decoder d) (hquiet : ¬ QuietAtEnd d)
    {fuel : ℕ} {s t : InputStream} {a : α} (hs : Sound s) (hserr : s.errorOccurred = false)
    (hrun : d fuel s = .ok a t) (hterr : t.errorOccurred = false) : left t < left s := by
  have hle := ((hd.forward fuel).ok hrun).left_le hs
  by_contra hno
  obtain ⟨v, hv, _, hverr⟩ := (hd.steady fuel).stalls s hs a t hrun (by omega) nothing
    ⟨rfl, rfl⟩ hserr.symm
  exact hquiet ⟨fuel, a, v, hv, hverr.trans hterr⟩

structure RunClass where
  Through : InputStream → Prop
  Along : List Event → Prop
  sound : ∀ {s}, Through s → Sound s
  suffix : ∀ {older newer}, Along newer → older <:+ newer → Along older
  keeps : ∀ {α : Type} {x : Read α}, ReadOp x → ∀ {s t a}, x s = .ok a t → Along t.history →
    Through s → Through t

def everyRun : RunClass where
  Through := Sound
  Along _ := True
  sound := id
  suffix _ _ := trivial
  keeps hx _ _ _ h _ := ((hx.respects advances_primitives).ok h).sound

def coveredRuns : RunClass where
  Through := Good
  Along := AllCovered
  sound := Good.sound
  suffix := AllCovered.suffix
  keeps hx _ _ _ h := ((hx.respects keeps_primitives).ok h).good

section Classes
variable {α β : Type} {runs : RunClass} {x : Read α} {s t : InputStream} {a : α}

def EndsIn (runs : RunClass) (r : EStateM.Result Halt InputStream α) : Prop :=
  runs.Along (finalState r).history → halted r ≠ some .outOfFuel

def TerminatesIn (runs : RunClass) (d : ℕ → Read α) : Prop :=
  ∃ bound : ℕ → ℕ, ∀ s, runs.Through s → ∀ fuel ≥ bound s.message.body.length,
    EndsIn runs (d fuel s)

/-- A covered run does not leave the payload, so it returns unless it runs out of iterations. -/
theorem terminates_iff {d : ℕ → Read α} (hd : Decoder d) : Terminates d ↔ TerminatesIn coveredRuns d := by
  refine exists_congr fun bound => forall₄_congr fun s hs fuel _ => forall_congr' fun hc => ?_
  obtain ⟨hstays, _, _⟩ := (ReadOp.decode hd fuel).keeps_good hs hc
  cases hrun : d fuel s with
  | ok a t => exact ⟨fun _ => nofun, fun _ => ⟨a, t, rfl⟩⟩
  | error e t =>
    rw [hrun] at hstays
    refine ⟨?_, fun h => ?_⟩
    · rintro ⟨_, _, h⟩
      cases h
    · cases e with
      | outOfBounds => exact absurd rfl hstays
      | outOfFuel => exact absurd rfl h

abbrev Extends (x : Read α) : Prop :=
  Respects (fun s t => s.history <:+ t.history) (fun s (_ : Halt) t => s.history <:+ t.history) x

theorem extends_primitives : Primitives (fun s t => s.history <:+ t.history)
    fun s (_ : Halt) t => s.history <:+ t.history :=
  keeps_primitives.imp ⟨fun _ => List.suffix_rfl, List.IsSuffix.trans, List.IsSuffix.trans⟩
    (fun _ _ h => h.extends_history) fun _ _ _ h => h.extends_history

theorem Decoder.extends {d : ℕ → Read α} (hd : Decoder d) (fuel : ℕ) : Extends (d fuel) :=
  hd.respects extends_primitives fuel

theorem endsIn_of (h : halted (x s) ≠ some .outOfFuel) : EndsIn runs (x s) := fun _ => h

theorem endsIn_pure (a : α) (s : InputStream) : EndsIn runs ((pure a : Read α) s) := fun _ => nofun

theorem endsIn_bind {f : α → Read β} (hx : EndsIn runs (x s)) (hf : ∀ a, Extends (f a))
    (hrest : ∀ a t, x s = .ok a t → runs.Along t.history → EndsIn runs (f a t)) :
    EndsIn runs ((x >>= f) s) := by
  intro halong
  rw [bind_run] at halong ⊢
  cases hrun : x s with
  | ok a t =>
    rw [hrun] at halong
    have hmore : t.history <:+ (finalState (f a t)).history := (hf a).finalState t
    exact hrest a t hrun (runs.suffix halong hmore) halong
  | error e t =>
    rw [hrun] at hx halong
    exact hx halong

end Classes

section Loops
variable {γ : Type} {lengthWidth maxLength : ℕ} {size : γ → ℕ} {read : γ → Read (Option γ)}
  {runs : RunClass}

theorem readElements_extends (hextends : ∀ value, Extends (read value)) (fuel itsSize : ℕ) (value : γ) :
    Extends (readElements lengthWidth maxLength size read fuel itsSize value) :=
  respects_readElements extends_primitives.headers extends_primitives.fuel lengthWidth maxLength size
    hextends fuel itsSize value

theorem readElements_measured (Inv : ℕ → γ → InputStream → Prop) (measure : γ → InputStream → ℕ)
    (hextends : ∀ value, Extends (read value))
    (hread : ∀ itsSize value s, Inv itsSize value s → EndsIn runs (read value s))
    (hnext : ∀ itsSize value value' s t, Inv itsSize value s →
      (itsSize > 0 ∨ (lengthWidth = 0 ∧ size value < maxLength)) →
      read value s = .ok (some value') t → runs.Along t.history →
      measure value' t < measure value s ∧ ∀ consumed,
        Inv (if lengthWidth ≠ 0 then wrapSub 32 itsSize consumed else itsSize) value' t)
    (fuel itsSize : ℕ) (value : γ) (s : InputStream) (hinv : Inv itsSize value s)
    (hfuel : measure value s < fuel) :
    EndsIn runs (readElements lengthWidth maxLength size read fuel itsSize value s) := by
  induction fuel generalizing itsSize value s with
  | zero => omega
  | succ fuel ih =>
    rw [readElements]
    split
    · rename_i hmore
      rw [bind_ok (get_run s)]
      refine endsIn_bind (hread itsSize value s hinv) (fun result => ?_) fun result t hrun halong => ?_
      · cases result with
        | none => exact respects_pure extends_primitives.composes _
        | some value' =>
          exact respects_bind extends_primitives.composes (respects_get extends_primitives.composes)
            fun _ => readElements_extends hextends fuel _ value'
      · cases result with
        | none => exact endsIn_pure _ t
        | some value' =>
          obtain ⟨hless, hinv⟩ := hnext itsSize value value' s t hinv hmore hrun halong
          exact ih _ value' t (hinv _) (by omega)
    · exact endsIn_pure _ s

theorem readElements_ends {message : Message} (hextends : ∀ value, Extends (read value))
    (hread : ∀ value s, s.message = message → runs.Through s → EndsIn runs (read value s))
    (hmoves : ∀ value value' s t, s.message = message → runs.Through s → s.errorOccurred = false →
      read value s = .ok (some value') t → runs.Along t.history →
      t.message = message ∧ runs.Through t ∧ t.errorOccurred = false ∧ left t < left s)
    (fuel itsSize : ℕ) (value : γ) (s : InputStream) (hmessage : s.message = message)
    (hs : runs.Through s) (herror : s.errorOccurred = false) (hfuel : left s < fuel) :
    EndsIn runs (readElements lengthWidth maxLength size read fuel itsSize value s) := by
  refine readElements_measured
    (fun _ _ s => s.message = message ∧ runs.Through s ∧ s.errorOccurred = false) (fun _ s => left s)
    hextends (fun _ value s hinv => hread value s hinv.1 hinv.2.1)
    (fun _ value value' s t hinv _ hrun halong => ?_) fuel itsSize value s ⟨hmessage, hs, herror⟩ hfuel
  obtain ⟨hm, ht, hterr, hless⟩ := hmoves value value' s t hinv.1 hinv.2.1 hinv.2.2 hrun halong
  exact ⟨hless, fun _ => ⟨hm, ht, hterr⟩⟩

/-- Without a length field the container grows up to its fixed size. -/
theorem readElements_grows {message : Message} (hextends : ∀ value, Extends (read value))
    (hread : ∀ value s, s.message = message → runs.Through s → EndsIn runs (read value s))
    (hgrows : ∀ value value' s t, s.message = message → runs.Through s → size value < maxLength →
      read value s = .ok (some value') t → runs.Along t.history →
      t.message = message ∧ runs.Through t ∧ size value' = size value + 1)
    (fuel : ℕ) (value : γ) (s : InputStream) (hmessage : s.message = message) (hs : runs.Through s)
    (hfuel : maxLength - size value < fuel) :
    EndsIn runs (readElements 0 maxLength size read fuel 0 value s) := by
  refine readElements_measured
    (fun itsSize _ s => itsSize = 0 ∧ s.message = message ∧ runs.Through s)
    (fun value _ => maxLength - size value) hextends
    (fun _ value s hinv => hread value s hinv.2.1 hinv.2.2)
    (fun itsSize value value' s t hinv hmore hrun halong => ?_) fuel 0 value s ⟨rfl, hmessage, hs⟩ hfuel
  obtain ⟨rfl, hm, hs⟩ := hinv
  have hless : size value < maxLength := by omega
  obtain ⟨hm, ht, hsize⟩ := hgrows value value' s t hm hs hless hrun halong
  exact ⟨by omega, fun _ => ⟨rfl, hm, ht⟩⟩

/-- An element that succeeds where the payload is used up is read again and again. -/
theorem readElements_diverges (stays : γ → Prop)
    (hread : ∀ value u, stays value → AtEnd u → u.errorOccurred = false →
      ∃ value' v, read value u = .ok (some value') v ∧ stays value' ∧ AtEnd v ∧
        v.errorOccurred = false)
    {itsSize : ℕ} (hsize : itsSize < 2 ^ 32)
    (hmore : itsSize > 0 ∨ (lengthWidth = 0 ∧ ∀ value, stays value → size value < maxLength))
    (fuel : ℕ) (value : γ) (u : InputStream) (hvalue : stays value) (hu : AtEnd u)
    (herror : u.errorOccurred = false) :
    halted (readElements lengthWidth maxLength size read fuel itsSize value u) =
      some .outOfFuel := by
  have hcond : ∀ value, stays value →
      itsSize > 0 ∨ (lengthWidth = 0 ∧ size value < maxLength) := fun value hv =>
    hmore.imp id fun h => ⟨h.1, h.2 value hv⟩
  induction fuel generalizing value u with
  | zero =>
    rw [readElements, if_pos (hcond value hvalue)]
    rfl
  | succ fuel ih =>
    obtain ⟨value', v, hrun, hvalue', hv, hverr⟩ := hread value u hvalue hu herror
    rw [readElements, if_pos (hcond value hvalue), bind_ok (get_run u), bind_ok hrun]
    change halted ((get >>= fun stop : InputStream => readElements lengthWidth maxLength size read
      fuel (if lengthWidth ≠ 0 then wrapSub 32 itsSize (wrapSub 64 u.remaining stop.remaining)
        else itsSize) value') v) = _
    have hzero : wrapSub 64 u.remaining v.remaining = 0 := by
      rw [hu.remaining, hv.remaining]
      rfl
    have hsame : wrapSub 32 itsSize 0 = itsSize := wrapSub_of_le (Nat.zero_le _) hsize
    rw [bind_ok (get_run v), hzero, hsame, ite_self]
    exact ih value' v hvalue' hv hverr

end Loops

theorem assignBits_halted {β : Type} {size bits : ℕ} {isSigned : Bool}
    {cast : BitVec (8 * size) → β} {invalid : Option β} {s : InputStream} (hs : Sound s) :
    halted (assignBits size bits isSigned cast invalid s) ≠ some .outOfFuel := by
  rw [assignBits_run]
  have hlog : Sound (logged (.assign (clampBits size bits) invalid.isSome) s) := ⟨hs.bit, hs.inside⟩
  obtain ⟨_, hrun⟩ | ⟨_, _, _, hrun⟩ | ⟨_, _, u, hrun⟩ :=
    readField_cases hlog isSigned (clampBits_le size bits)
  · rw [hrun]
    exact nofun
  · rw [hrun]
    exact nofun
  · rw [hrun]
    change some Halt.outOfBounds ≠ some .outOfFuel
    decide

theorem readWidth_halted {width value : ℕ} {permitZeroWidth : Bool} {s : InputStream}
    (hs : Sound s) : halted (readWidth width permitZeroWidth value s) ≠ some .outOfFuel := by
  unfold readWidth
  split
  · cases permitZeroWidth <;> exact nofun
  · exact assignBits_halted hs
  · exact assignBits_halted hs
  · exact assignBits_halted hs
  · exact nofun

theorem readWidth_rejected {width n : ℕ} {s t : InputStream}
    (hwidth : width ≠ 0 ∧ width ≠ 1 ∧ width ≠ 2 ∧ width ≠ 4)
    (h : readWidth width true 0 s = .ok n t) : t.errorOccurred = true := by
  obtain ⟨h0, h1, h2, h4⟩ := hwidth
  unfold readWidth at h
  split at h
  · exact absurd rfl h0
  · exact absurd rfl h1
  · exact absurd rfl h2
  · exact absurd rfl h4
  · cases h
    rfl

theorem checkLength_halted (lengthWidth minLength maxLength itsSize size : ℕ) (s : InputStream) :
    halted (checkLength lengthWidth minLength maxLength itsSize size s) = none := by
  unfold checkLength
  repeat' split
  all_goals rfl

theorem unlessError_endsIn {α : Type} {runs : RunClass} {tail : Read α} {value : α} {s : InputStream}
    (h : s.errorOccurred = false → EndsIn runs (tail s)) :
    EndsIn runs ((do if ← hasError then pure value else tail : Read α) s) := by
  change EndsIn runs ((if s.errorOccurred = true then pure value else tail : Read α) s)
  split
  · exact endsIn_pure _ s
  · exact h (by simpa using ‹¬ s.errorOccurred = true›)

/-- What is left when something has been returned past the look at the error flag. -/
theorem unlessError_ok {α : Type} {tail : Read (Option α)} {a : α} {s t : InputStream}
    (h : (do if ← hasError then pure none else tail : Read (Option α)) s = .ok (some a) t) :
    s.errorOccurred = false ∧ tail s = .ok (some a) t := by
  change (if s.errorOccurred = true then pure none else tail : Read (Option α)) s = _ at h
  split at h
  · cases h
  · exact ⟨by simpa using ‹¬ s.errorOccurred = true›, h⟩

section Vectors
variable {α : Type} {element : Read α} {value value' : List α} {s t : InputStream}

theorem pushElement_ok (h : pushElement element value s = .ok (some value') t) :
    ∃ a, element s = .ok a t ∧ t.errorOccurred = false ∧ value' = value ++ [a] := by
  obtain ⟨a, m, hrun, hrest⟩ := bind_eq_ok.1 h
  obtain ⟨herror, hpure⟩ := unlessError_ok hrest
  cases hpure
  exact ⟨a, hrun, herror, rfl⟩

theorem pushElement_extends (helement : Extends element) (value : List α) :
    Extends (pushElement element value) :=
  respects_pushElement extends_primitives.headers helement value

theorem pushElement_endsIn {runs : RunClass} (h : EndsIn runs (element s)) :
    EndsIn runs (pushElement element value s) :=
  endsIn_bind h
    (fun _ => respects_unlessError extends_primitives.headers none (respects_pure extends_primitives.composes _))
    fun _ t _ _ => unlessError_endsIn fun _ => endsIn_pure _ t

end Vectors

section Maps
variable {κ ν : Type} [DecidableEq κ] {key : Read κ} {mapped : Read ν}
  {value value' : List (κ × ν)} {s t : InputStream}

theorem readEntry_ok (h : readEntry key mapped value s = .ok (some value') t) :
    ∃ k m a, key s = .ok k m ∧ m.errorOccurred = false ∧ mapped m = .ok a t ∧
      t.errorOccurred = false ∧ value' = insertEntry k a value := by
  obtain ⟨k, m, hkey, hrest⟩ := bind_eq_ok.1 h
  obtain ⟨hmerr, hrest⟩ := unlessError_ok hrest
  obtain ⟨a, u, hmapped, hrest⟩ := bind_eq_ok.1 hrest
  obtain ⟨hterr, hpure⟩ := unlessError_ok hrest
  cases hpure
  exact ⟨k, m, a, hkey, hmerr, hmapped, hterr, rfl⟩

theorem readEntry_extends (hkey : Extends key) (hmapped : Extends mapped) (value : List (κ × ν)) :
    Extends (readEntry key mapped value) :=
  respects_readEntry extends_primitives.headers hkey hmapped value

theorem readEntry_endsIn {runs : RunClass} (hextends : Extends mapped) (hkey : EndsIn runs (key s))
    (hmapped : ∀ k m, key s = .ok k m → runs.Along m.history → EndsIn runs (mapped m)) :
    EndsIn runs (readEntry key mapped value s) := by
  have hend : ∀ k : κ, Extends (do
      let itsValue ← mapped
      if ← hasError then pure none else pure (some (insertEntry k itsValue value)) : Read _) := fun _ =>
    respects_bind extends_primitives.composes hextends fun _ =>
      respects_unlessError extends_primitives.headers none (respects_pure extends_primitives.composes _)
  refine endsIn_bind hkey (fun k => respects_unlessError extends_primitives.headers none (hend k))
    fun k m hk halong => unlessError_endsIn fun _ => ?_
  exact endsIn_bind (hmapped k m hk halong)
    (fun _ => respects_unlessError extends_primitives.headers none (respects_pure extends_primitives.composes _))
    fun _ t _ _ => unlessError_endsIn fun _ => endsIn_pure _ t

theorem insertEntry_nil (k : κ) (a : ν) : insertEntry k a [] = [(k, a)] := by
  simp [insertEntry]

theorem insertEntry_again (k : κ) (a b : ν) : insertEntry k a [(k, b)] = [(k, b)] := by
  simp [insertEntry]

end Maps

section Ending
variable {α κ ν : Type} [DecidableEq κ] {runs : RunClass}

theorem RunClass.aligned {s : InputStream} (hs : runs.Through s)
    (halong : runs.Along (aligned s).history) :
    (InputStream.aligned s).message = s.message ∧ runs.Through (InputStream.aligned s) :=
  ⟨(aligned_advances s).message, runs.keeps .bitAlign (bitAlign_run s) halong hs⟩

theorem readWidth_state {width value n : ℕ} {permitZeroWidth : Bool} {s m : InputStream}
    (hs : runs.Through s) (h : readWidth width permitZeroWidth value s = .ok n m)
    (halong : runs.Along m.history) : m.message = s.message ∧ runs.Through m :=
  ⟨((steady_readWidth width permitZeroWidth value).forward.ok h).message,
    runs.keeps (.width width permitZeroWidth value) h halong hs⟩

theorem decoder_state {d : ℕ → Read α} (hd : Decoder d) {fuel : ℕ} {message : Message}
    {s t : InputStream} {a : α} (h : d fuel s = .ok a t) (hmessage : s.message = message)
    (hs : runs.Through s) (halong : runs.Along t.history) : t.message = message ∧ runs.Through t :=
  ⟨((hd.forward fuel).ok h).message.trans hmessage, runs.keeps (.decode hd fuel) h halong hs⟩

theorem header_endsIn (width : ℕ) {rest : ℕ → Read α} {s : InputStream} (hs : runs.Through s)
    (hextends : ∀ n, Extends (rest n))
    (hrest : ∀ n m, readWidth width true 0 (InputStream.aligned s) = .ok n m →
      m.message = s.message → runs.Through m → EndsIn runs (rest n m)) :
    EndsIn runs ((bitAlign >>= fun _ => readWidth width true 0 >>= rest) s) := by
  have hheaders := extends_primitives.headers
  refine endsIn_bind (endsIn_of nofun)
    (fun _ => respects_bind hheaders.composes (respects_readWidth hheaders _ _ _) hextends) fun _ u hu halong => ?_
  rw [bitAlign_run] at hu
  cases hu
  obtain ⟨hmessage, ha⟩ := runs.aligned hs halong
  refine endsIn_bind (endsIn_of (readWidth_halted (runs.sound ha))) hextends fun n m hm halong => ?_
  obtain ⟨hmm, hms⟩ := readWidth_state ha hm halong
  exact hrest n m hm (hmm.trans hmessage) hms

theorem readVector_terminates {element : ℕ → Read α} (hd : Decoder element)
    (hterm : TerminatesIn runs element) (depl : Option ArrayDeployment)
    (h : ¬ IsWidth ((depl.map (·.arrayLengthWidth)).getD 4) ∨ ¬ QuietAtEnd element) :
    TerminatesIn runs fun fuel => readVector fuel depl (element fuel) := by
  obtain ⟨bound, hbound⟩ := hterm
  refine ⟨fun length => max (bound length)
    (8 * length + (depl.map (·.arrayMaxLength)).getD 0xFFFFFFFF + 1), fun s hs fuel hfuel => ?_⟩
  have hheaders := extends_primitives.headers
  have hextends := pushElement_extends (hd.extends fuel)
  have hclosing := respects_closing hheaders ((depl.map (·.arrayLengthWidth)).getD 4)
    ((depl.map (·.arrayMinLength)).getD 0) ((depl.map (·.arrayMaxLength)).getD 0xFFFFFFFF)
    (List.length (α := α))
  refine header_endsIn _ hs (fun n => respects_unlessError hheaders []
      (respects_bind hheaders.composes (readElements_extends hextends fuel n []) hclosing))
    fun n m hm hmsg hms => unlessError_endsIn fun herr => ?_
  have helement : ∀ (value : List α) u, u.message = s.message → runs.Through u →
      EndsIn runs (pushElement (element fuel) value u) := by
    intro value u hu hus
    refine pushElement_endsIn (hbound u hus fuel ?_)
    rw [hu]
    exact (le_max_left _ _).trans hfuel
  refine endsIn_bind ?_ hclosing fun r u _ _ => endsIn_bind (endsIn_of ?_)
    (fun _ => respects_pure hheaders.composes _) fun _ t _ _ => endsIn_pure _ t
  · by_cases hzero : (depl.map (·.arrayLengthWidth)).getD 4 = 0
    · rw [hzero] at hm ⊢
      cases hm
      refine readElements_grows hextends helement (fun value value' u v hu hus _ hrun halong => ?_) fuel [] _
        hmsg hms ?_
      · obtain ⟨a, ha, _, rfl⟩ := pushElement_ok hrun
        obtain ⟨hv, hvs⟩ := decoder_state hd ha hu hus halong
        exact ⟨hv, hvs, by simp⟩
      · have hmax := (le_max_right _ _).trans hfuel
        omega
    · by_cases hwidth : IsWidth ((depl.map (·.arrayLengthWidth)).getD 4)
      · have hquiet := h.resolve_left (not_not_intro hwidth)
        refine readElements_ends hextends helement (fun value value' u v hu hus huerr hrun halong => ?_) fuel n []
          m hmsg hms herr ?_
        · obtain ⟨a, ha, hverr, _⟩ := pushElement_ok hrun
          obtain ⟨hv, hvs⟩ := decoder_state hd ha hu hus halong
          exact ⟨hv, hvs, hverr, hd.moves hquiet (runs.sound hus) huerr ha hverr⟩
        · have hmax := (le_max_right _ _).trans hfuel
          unfold left
          rw [hmsg]
          omega
      · have hrejected := readWidth_rejected (by unfold IsWidth at hwidth; omega) hm
        rw [herr] at hrejected
        cases hrejected
  · rw [checkLength_halted]
    exact nofun

section Entries
variable {key : ℕ → Read κ} {mapped : ℕ → Read ν} {message : Message} {fuel : ℕ}

/-- Enough iterations for the key and for the value are enough for the entry. -/
theorem readEntry_fuel (message : Message) (fuel : ℕ) (hkey : Decoder key) (hmapped : Decoder mapped)
    {boundKey boundMapped : ℕ → ℕ}
    (hboundKey : ∀ s, runs.Through s → ∀ fuel ≥ boundKey s.message.body.length,
      EndsIn runs (key fuel s))
    (hboundMapped : ∀ s, runs.Through s → ∀ fuel ≥ boundMapped s.message.body.length,
      EndsIn runs (mapped fuel s))
    (hfuelKey : boundKey message.body.length ≤ fuel)
    (hfuelMapped : boundMapped message.body.length ≤ fuel) (value : List (κ × ν)) (s : InputStream)
    (hmessage : s.message = message) (hs : runs.Through s) :
    EndsIn runs (readEntry (key fuel) (mapped fuel) value s) := by
  subst hmessage
  refine readEntry_endsIn (hmapped.extends fuel) (hboundKey s hs fuel hfuelKey) fun k m hm halong => ?_
  obtain ⟨hmessage, hms⟩ := decoder_state hkey hm rfl hs halong
  refine hboundMapped m hms fuel ?_
  rw [hmessage]
  exact hfuelMapped

theorem readEntry_forward (hkey : Decoder key) (hmapped : Decoder mapped)
    {value value' : List (κ × ν)} {s t : InputStream} (hmessage : s.message = message)
    (hs : runs.Through s) (h : readEntry (key fuel) (mapped fuel) value s = .ok (some value') t)
    (halong : runs.Along t.history) : t.message = message ∧ runs.Through t := by
  obtain ⟨k, m, a, hk, _, ha, _, _⟩ := readEntry_ok h
  have hmore : m.history <:+ t.history := (hmapped.extends fuel).ok ha
  obtain ⟨hm, hms⟩ := decoder_state hkey hk hmessage hs (runs.suffix halong hmore)
  exact decoder_state hmapped ha hm hms halong

theorem readEntry_moves (hkey : Decoder key) (hmapped : Decoder mapped)
    (hquiet : ¬ (QuietAtEnd key ∧ QuietAtEnd mapped)) {value value' : List (κ × ν)}
    {s t : InputStream} (hs : Sound s) (herror : s.errorOccurred = false)
    (h : readEntry (key fuel) (mapped fuel) value s = .ok (some value') t) :
    t.errorOccurred = false ∧ left t < left s := by
  obtain ⟨k, m, a, hk, hmerr, ha, hterr, _⟩ := readEntry_ok h
  have h1 := (hkey.forward fuel).ok hk
  have h2 := (hmapped.forward fuel).ok ha
  have hm := h1.sound hs
  have hle1 := h1.left_le hs
  have hle2 := h2.left_le hm
  refine ⟨hterr, ?_⟩
  by_cases hq : QuietAtEnd key
  · have hless := hmapped.moves (fun hqm => hquiet ⟨hq, hqm⟩) hm hmerr ha hterr
    omega
  · have hless := hkey.moves hq hs herror hk hmerr
    omega

/-- The loop of a map with a length field, or with entries that move the cursor. -/
theorem readEntries_ends (hkey : Decoder key) (hmapped : Decoder mapped)
    (hentry : ∀ (value : List (κ × ν)) s, s.message = message → runs.Through s →
      EndsIn runs (readEntry (key fuel) (mapped fuel) value s))
    (hquiet : ¬ (QuietAtEnd key ∧ QuietAtEnd mapped)) {width maxLength : ℕ} {s : InputStream}
    (hmessage : s.message = message) (hs : runs.Through s) (herror : s.errorOccurred = false)
    (hfuel : 8 * message.body.length < fuel) (itsSize : ℕ) :
    EndsIn runs (readElements width maxLength List.length (readEntry (key fuel) (mapped fuel)) fuel
      itsSize [] s) := by
  refine readElements_ends (readEntry_extends (hkey.extends fuel) (hmapped.extends fuel)) hentry
    (fun value value' u v hu hus huerr hrun halong => ?_) fuel itsSize [] s hmessage hs herror ?_
  · obtain ⟨hv, hvs⟩ := readEntry_forward hkey hmapped hu hus hrun halong
    obtain ⟨hverr, hless⟩ := readEntry_moves hkey hmapped hquiet (runs.sound hus) huerr hrun
    exact ⟨hv, hvs, hverr, hless⟩
  · unfold left
    rw [hmessage]
    omega

end Entries

variable {key : ℕ → Read κ} {mapped : ℕ → Read ν}

theorem readMap_terminates (hkey : Decoder key) (hmapped : Decoder mapped)
    (htkey : TerminatesIn runs key) (htmapped : TerminatesIn runs mapped) (depl : Option MapDeployment)
    (h : ¬ (QuietAtEnd key ∧ QuietAtEnd mapped) ∨
      (¬ IsWidth ((depl.map (·.mapLengthWidth)).getD 4) ∧
        ((depl.map (·.mapLengthWidth)).getD 4 = 0 →
          (depl.map (·.mapMaxLength)).getD 0xFFFFFFFF ≤ 1))) :
    TerminatesIn runs fun fuel => readMap fuel depl (key fuel) (mapped fuel) := by
  obtain ⟨boundKey, hboundKey⟩ := htkey
  obtain ⟨boundMapped, hboundMapped⟩ := htmapped
  refine ⟨fun length => max (boundKey length) (max (boundMapped length) (8 * length + 2)),
    fun s hs fuel hfuel => ?_⟩
  have hfuel : max (boundKey s.message.body.length) (max (boundMapped s.message.body.length)
    (8 * s.message.body.length + 2)) ≤ fuel := hfuel
  have hheaders := extends_primitives.headers
  have hextends := readEntry_extends (hkey.extends fuel) (hmapped.extends fuel)
  have hclosing := respects_closing hheaders ((depl.map (·.mapLengthWidth)).getD 4)
    ((depl.map (·.mapMinLength)).getD 0) ((depl.map (·.mapMaxLength)).getD 0xFFFFFFFF)
    (List.length (α := κ × ν))
  have hentries := fun n => respects_readEntries hheaders extends_primitives.fuel fuel
    ((depl.map (·.mapLengthWidth)).getD 4) ((depl.map (·.mapMaxLength)).getD 0xFFFFFFFF) n
    (hkey.extends fuel) (hmapped.extends fuel)
  refine header_endsIn _ hs (fun n => respects_bind hheaders.composes (hentries n) hclosing)
    fun n m hm hmsg hms => ?_
  have hentry := readEntry_fuel s.message fuel hkey hmapped hboundKey hboundMapped
    (by omega) (by omega)
  refine endsIn_bind (unlessError_endsIn fun herr => ?_) hclosing fun r u _ _ => endsIn_bind (endsIn_of ?_)
    (fun _ => respects_pure hheaders.composes _) fun _ t _ _ => endsIn_pure _ t
  · by_cases hquiet : QuietAtEnd key ∧ QuietAtEnd mapped
    · obtain ⟨hwidth, hmax⟩ := h.resolve_left (not_not_intro hquiet)
      by_cases hzero : (depl.map (·.mapLengthWidth)).getD 4 = 0
      · have hmax := hmax hzero
        rw [hzero] at hm ⊢
        cases hm
        refine readElements_grows hextends hentry (fun value value' u v hu hus hless hrun halong => ?_) fuel []
          _ hmsg hms (by omega)
        obtain ⟨hv, hvs⟩ := readEntry_forward hkey hmapped hu hus hrun halong
        obtain ⟨k, _, a, _, _, _, _, rfl⟩ := readEntry_ok hrun
        have hnil : value = [] := List.eq_nil_of_length_eq_zero (by omega)
        subst hnil
        exact ⟨hv, hvs, by rw [insertEntry_nil]; rfl⟩
      · have hrejected := readWidth_rejected (by unfold IsWidth at hwidth; omega) hm
        rw [herr] at hrejected
        cases hrejected
    · exact readEntries_ends hkey hmapped hentry hquiet hmsg hms herr (by omega) n
  · rw [checkLength_halted]
    exact nofun

theorem assignBits_error {size bits : ℕ} {isSigned : Bool} {β : Type}
    {cast : BitVec (8 * size) → β} {a : β} {s t : InputStream}
    (h : assignBits size bits isSigned cast none s = .ok a t) (herror : t.errorOccurred = true) :
    a = cast 0 := by
  rw [assignBits_run] at h
  cases hx : readField size (clampBits size bits) isSigned
      (logged (.assign (clampBits size bits) (none : Option β).isSome) s) with
  | error e t =>
    rw [hx] at h
    cases h
  | ok r m =>
    obtain ⟨isError, value⟩ := r
    have hiff := readField_isError hx
    rw [hx] at h
    cases h
    have hbad : isError = true := by simpa using herror
    rw [readField_short _ isSigned (hiff.1 hbad)] at hx
    cases hx
    rfl

theorem readMapEmpty_terminates (hkey : Decoder key) (hmapped : Decoder mapped)
    (htkey : TerminatesIn runs key) (htmapped : TerminatesIn runs mapped)
    (hquiet : ¬ (QuietAtEnd key ∧ QuietAtEnd mapped)) :
    TerminatesIn runs fun fuel => readMapEmpty fuel (key fuel) (mapped fuel) := by
  obtain ⟨boundKey, hboundKey⟩ := htkey
  obtain ⟨boundMapped, hboundMapped⟩ := htmapped
  refine ⟨fun length => max (boundKey length) (max (boundMapped length) (8 * length + 1)),
    fun s hs fuel hfuel => ?_⟩
  have hfuel : max (boundKey s.message.body.length) (max (boundMapped s.message.body.length)
    (8 * s.message.body.length + 1)) ≤ fuel := hfuel
  have hheaders := extends_primitives.headers
  have hextends := readEntry_extends (hkey.extends fuel) (hmapped.extends fuel)
  have hclosing := respects_closingEmpty hheaders (γ := List (κ × ν))
  have hloop : ∀ n, Extends (readElements 4 0 List.length (readEntry (key fuel) (mapped fuel)) fuel n []) :=
    fun n => readElements_extends hextends fuel n []
  refine header_endsIn 4 hs (fun n => respects_bind hheaders.composes (hloop n) hclosing)
    fun n m hm hmsg hms => ?_
  have hentry := readEntry_fuel s.message fuel hkey hmapped hboundKey hboundMapped
    (by omega) (by omega)
  refine endsIn_bind ?_ hclosing fun r u _ _ => ?_
  · cases herr : m.errorOccurred with
    | true =>
      have hm : assignBits 4 32 false BitVec.toNat none (InputStream.aligned s) = .ok n m := hm
      have hzero : n = 0 := assignBits_error hm herr
      rw [hzero, readElements_done fuel (by simp)]
      exact endsIn_pure _ m
    | false => exact readEntries_ends hkey hmapped hentry hquiet hmsg hms herr (by omega) n
  · obtain ⟨itsSize, value⟩ := r
    dsimp only
    split <;> exact endsIn_of nofun

end Ending

def Rests (s t : InputStream) : Prop :=
  AtEnd s → AtEnd t ∧ (AllCovered s.history → AllCovered t.history)

def RestsHalt (s : InputStream) (_ : Halt) (t : InputStream) : Prop :=
  AtEnd s → AllCovered s.history → AllCovered t.history

theorem rests_composes : Composes Rests RestsHalt where
  refl _ := fun hs => ⟨hs, id⟩
  trans h k := fun hs => ⟨(k (h hs).1).1, (k (h hs).1).2 ∘ (h hs).2⟩
  absorb h k := fun hs => k (h hs).1 ∘ (h hs).2

theorem AllCovered.logged {step : Step} {s : InputStream} (hstep : Event.Covered ⟨step, s.toCursor⟩)
    (h : AllCovered s.history) : AllCovered (logged step s).history :=
  List.forall_mem_cons.2 ⟨hstep, h⟩

theorem logged_rests {step : Step} {s : InputStream}
    (hstep : AtEnd s → Event.Covered ⟨step, s.toCursor⟩) : Rests s (logged step s) :=
  fun hs => ⟨⟨hs.remaining, hs.currentBit⟩, AllCovered.logged (hstep hs)⟩

theorem raised_rests (s : InputStream) : Rests s (raised s) :=
  fun hs => ⟨⟨hs.remaining, hs.currentBit⟩, AllCovered.logged trivial⟩

theorem aligned_rests (s : InputStream) : Rests s (aligned s) := by
  intro hs
  have hbit : ¬ s.currentBit > 0 := by
    rw [hs.currentBit]
    exact lt_irrefl 0
  unfold aligned
  rw [if_neg hbit]
  exact logged_rests (fun _ => trivial) hs

theorem skipped_rests (size : ℕ) (s : InputStream) : Rests s (skipped size s) := by
  intro hs
  have hstep : Event.Covered ⟨.readRaw size, s.toCursor⟩ := Or.inr hs.currentBit
  unfold skipped
  split
  · exact ⟨⟨rfl, hs.currentBit⟩, fun hc => AllCovered.logged trivial (hc.logged hstep)⟩
  · refine ⟨⟨?_, hs.currentBit⟩, AllCovered.logged hstep⟩
    change s.remaining - size = 0
    rw [hs.remaining, Nat.zero_sub]

theorem readField_rests (size bits : ℕ) (isSigned : Bool) {s : InputStream} (hs : AtEnd s) :
    ∃ t, readField size bits isSigned s = .ok (true, 0) t ∧ AtEnd t ∧
      (AllCovered s.history → AllCovered t.history) := by
  have hshort : ¬ Enough s.toCursor bits := hs.short bits
  exact ⟨_, readField_short s isSigned hshort, ⟨hs.remaining, hs.currentBit⟩,
    AllCovered.logged (Or.inr (Or.inl hshort))⟩

theorem assignBits_rests {β : Type} (size bits : ℕ) (isSigned : Bool) (cast : BitVec (8 * size) → β)
    (invalid : Option β) : Respects Rests RestsHalt (assignBits size bits isSigned cast invalid) := by
  intro s
  have hread := fun hs : AtEnd s => readField_rests size (clampBits size bits) isSigned
    (s := logged (.assign (clampBits size bits) invalid.isSome) s) ⟨hs.remaining, hs.currentBit⟩
  rw [assignBits_run]
  cases hx : readField size (clampBits size bits) isSigned
      (logged (.assign (clampBits size bits) invalid.isSome) s) with
  | error e t =>
    intro hs
    obtain ⟨_, hrun, _⟩ := hread hs
    cases hx.symm.trans hrun
  | ok r t =>
    intro hs
    obtain ⟨u, hrun, hu, hc⟩ := hread hs
    cases hx.symm.trans hrun
    exact ⟨⟨hu.remaining, hu.currentBit⟩, fun h => hc (AllCovered.logged trivial h)⟩

theorem ignoreBits_rests (size bits : ℕ) (isSigned : Bool) :
    Respects Rests RestsHalt (ignoreBits size bits isSigned) := by
  intro s
  have hread := fun hs : AtEnd s => readField_rests size (clampBits size bits) isSigned
    (s := logged (.ignore (clampBits size bits)) s) ⟨hs.remaining, hs.currentBit⟩
  rw [ignoreBits_run]
  cases hx : readField size (clampBits size bits) isSigned
      (logged (.ignore (clampBits size bits)) s) with
  | error e t =>
    intro hs
    obtain ⟨_, hrun, _⟩ := hread hs
    cases hx.symm.trans hrun
  | ok r t =>
    intro hs
    obtain ⟨u, hrun, hu, hc⟩ := hread hs
    cases hx.symm.trans hrun
    exact ⟨⟨hu.remaining, hu.currentBit⟩, fun h => hc (AllCovered.logged trivial h)⟩

theorem rests_primitives : Primitives Rests RestsHalt where
  composes := rests_composes
  align s := by
    rw [bitAlign_run]
    exact aligned_rests s
  raw size s := by
    rw [readRaw_run]
    exact skipped_rests size s
  raising := raised_rests
  assign := assignBits_rests
  ignore := ignoreBits_rests
  string itsSize encoding s _ := by
    have hskip := skipped_rests itsSize s
    cases hdecode : decodeString (s.message.body.drop s.current) itsSize encoding with
    | error e =>
      rw [readStringData_halt hdecode]
      exact fun hs => (hskip hs).2
    | ok r =>
      obtain ⟨isError, value⟩ := r
      rw [readStringData_run hdecode]
      cases isError with
      | false => exact hskip
      | true => exact rests_composes.trans hskip (raised_rests _)
  bytes itsSize size s _ _ := by
    have hskip := skipped_rests itsSize s
    rw [readBytes_run]
    split
    · exact hskip
    · exact fun hs => (hskip hs).2
  fuel _ := fun _ => id

/-- A decoder that runs out of iterations on covered payloads of one length. -/
theorem diverges {α : Type} {d : ℕ → Read α} {s : InputStream} (hs : Good s) (enough : ℕ)
    (h : ∀ fuel ≥ enough, ∃ u, ∃ tail : Read α, d fuel s = tail u ∧ AtEnd u ∧ AllCovered u.history ∧
      Respects Rests RestsHalt tail ∧ halted (tail u) = some .outOfFuel) : ¬ Terminates d := by
  rintro ⟨bound, hbound⟩
  obtain ⟨u, tail, heq, hu, hc, hrests, hhalted⟩ := h (max (bound s.message.body.length) enough) (le_max_right _ _)
  have hcovered : AllCovered (finalState (tail u)).history := by
    have hout := hrests u
    cases hrun : tail u with
    | ok a t =>
      rw [hrun] at hout
      exact (hout hu).2 hc
    | error e t =>
      rw [hrun] at hout
      exact hout hu hc
  obtain ⟨a, t, hok⟩ := hbound s hs _ (le_max_left _ _) (by rw [heq]; exact hcovered)
  rw [← heq, hok] at hhalted
  cases hhalted

def headerOnly (width : ℕ) (h : IsWidth width) : InputStream :=
  create ⟨List.replicate width 1, by rw [List.length_replicate]; unfold IsWidth at h; omega⟩ true

theorem headerOnly_read {width : ℕ} (h : IsWidth width) :
    ∃ n u, readWidth width true 0 (aligned (headerOnly width h)) = .ok n u ∧ 0 < n ∧ n < 2 ^ 32 ∧
      AtEnd u ∧ u.errorOccurred = false ∧ AllCovered u.history := by
  obtain rfl | rfl | rfl := h
  · exact ⟨_, _, rfl, by decide, by decide, ⟨by decide, by decide⟩, by decide, by decide⟩
  · exact ⟨_, _, rfl, by decide, by decide, ⟨by decide, by decide⟩, by decide, by decide⟩
  · exact ⟨_, _, rfl, by decide, by decide, ⟨by decide, by decide⟩, by decide, by decide⟩

theorem unlessError_run {α : Type} (tail : Read α) (value : α) {s : InputStream}
    (h : s.errorOccurred = false) :
    (do if ← hasError then pure value else tail : Read α) s = tail s := by
  change (if s.errorOccurred = true then pure value else tail : Read α) s = _
  rw [h]
  rfl

section Diverging
variable {α κ ν : Type} [DecidableEq κ] {element : ℕ → Read α} {key : ℕ → Read κ}
  {mapped : ℕ → Read ν}

theorem readVector_diverges (hd : Decoder element) (hquiet : QuietAtEnd element)
    (depl : Option ArrayDeployment) (hwidth : IsWidth ((depl.map (·.arrayLengthWidth)).getD 4)) :
    ¬ Terminates fun fuel => readVector fuel depl (element fuel) := by
  obtain ⟨enough, a, hrun⟩ := hd.quiet hquiet
  obtain ⟨n, u, hread, hpos, hlt, hu, huerr, hc⟩ := headerOnly_read hwidth
  have hheaders := rests_primitives.headers
  refine diverges (s := headerOnly _ hwidth) (create_good _ _) enough fun fuel hfuel =>
    ⟨u, _, ((bind_ok (bitAlign_run _)).trans (bind_ok hread)).trans (unlessError_run _ _ huerr), hu, hc, ?_, ?_⟩
  · exact respects_bind hheaders.composes (respects_readElements hheaders rests_primitives.fuel _ _ _
      (respects_pushElement hheaders (hd.respects rests_primitives fuel)) fuel _ _)
      (respects_closing hheaders _ _ _ List.length)
  refine halted_bind_halts (readElements_diverges (fun _ => True) ?_ hlt (Or.inl hpos) _ [] u
    trivial hu huerr)
  intro value s _ hs herr
  obtain ⟨v, hv, hend, hverr⟩ := hrun _ hfuel s hs herr
  refine ⟨value ++ [a], v, ?_, trivial, hend, hverr⟩
  unfold pushElement
  rw [bind_ok hv, unlessError_run _ _ hverr]
  rfl

/-- The same entry is read again and again, so a map never gets a second one. -/
theorem readEntries_diverges (hkey : Decoder key) (hmapped : Decoder mapped)
    (hquietKey : QuietAtEnd key) (hquietMapped : QuietAtEnd mapped) :
    ∃ enough, ∀ fuel ≥ enough, ∀ (width maxLength itsSize : ℕ), itsSize < 2 ^ 32 →
      (itsSize > 0 ∨ (width = 0 ∧ 1 < maxLength)) → ∀ u, AtEnd u → u.errorOccurred = false →
      halted (readElements width maxLength List.length (readEntry (key fuel) (mapped fuel)) fuel
        itsSize [] u) = some .outOfFuel := by
  obtain ⟨enoughKey, k, hk⟩ := hkey.quiet hquietKey
  obtain ⟨enoughMapped, a, ha⟩ := hmapped.quiet hquietMapped
  refine ⟨max enoughKey enoughMapped, fun fuel hfuel width maxLength itsSize hlt hmore u hu herr => ?_⟩
  have hsmall : ∀ value : List (κ × ν), value = [] ∨ value = [(k, a)] → value.length ≤ 1 := by
    rintro value (rfl | rfl)
    · exact Nat.zero_le _
    · exact le_rfl
  refine readElements_diverges (fun value => value = [] ∨ value = [(k, a)]) ?_ hlt ?_ fuel [] u
    (Or.inl rfl) hu herr
  · intro value s hvalue hs hserr
    obtain ⟨m, hm, hmend, hmerr⟩ := hk fuel (by omega) s hs hserr
    obtain ⟨v, hv, hvend, hverr⟩ := ha fuel (by omega) m hmend hmerr
    refine ⟨insertEntry k a value, v, ?_, ?_, hvend, hverr⟩
    · unfold readEntry
      rw [bind_ok hm, unlessError_run _ _ hmerr, bind_ok hv, unlessError_run _ _ hverr]
      rfl
    · obtain rfl | rfl := hvalue
      · exact Or.inr (insertEntry_nil k a)
      · exact Or.inr (insertEntry_again k a a)
  · refine hmore.imp id fun h => ⟨h.1, fun value hvalue => ?_⟩
    have hlen := hsmall value hvalue
    omega

theorem readMap_diverges (hkey : Decoder key) (hmapped : Decoder mapped)
    (hquietKey : QuietAtEnd key) (hquietMapped : QuietAtEnd mapped) (depl : Option MapDeployment)
    (hwidth : IsWidth ((depl.map (·.mapLengthWidth)).getD 4) ∨
      ((depl.map (·.mapLengthWidth)).getD 4 = 0 ∧
        1 < (depl.map (·.mapMaxLength)).getD 0xFFFFFFFF)) :
    ¬ Terminates fun fuel => readMap fuel depl (key fuel) (mapped fuel) := by
  obtain ⟨enough, hloop⟩ := readEntries_diverges hkey hmapped hquietKey hquietMapped
  have hheaders := rests_primitives.headers
  have hrests := fun fuel width maxLength n => respects_readEntries hheaders rests_primitives.fuel fuel width
    maxLength n (hkey.respects rests_primitives fuel) (hmapped.respects rests_primitives fuel)
  have hclosing := respects_closing hheaders ((depl.map (·.mapLengthWidth)).getD 4)
    ((depl.map (·.mapMinLength)).getD 0) ((depl.map (·.mapMaxLength)).getD 0xFFFFFFFF)
    (List.length (α := κ × ν))
  obtain hwidth | ⟨hzero, hmax⟩ := hwidth
  · obtain ⟨n, u, hread, hpos, hlt, hu, huerr, hc⟩ := headerOnly_read hwidth
    refine diverges (s := headerOnly _ hwidth) (create_good _ _) enough fun fuel hfuel =>
      ⟨u, _, (bind_ok (bitAlign_run _)).trans (bind_ok hread), hu, hc,
        respects_bind hheaders.composes (hrests fuel _ _ n) hclosing, halted_bind_halts ?_⟩
    unfold readEntries
    rw [unlessError_run _ _ huerr]
    exact hloop fuel hfuel _ _ n hlt (Or.inl hpos) u hu huerr
  · have hread : readWidth ((depl.map (·.mapLengthWidth)).getD 4) true 0 (aligned nothing) =
        .ok 0 (aligned nothing) := by
      rw [hzero]
      rfl
    refine diverges (s := nothing) (create_good _ _) enough fun fuel hfuel =>
      ⟨aligned nothing, _, (bind_ok (bitAlign_run _)).trans (bind_ok hread), ⟨rfl, rfl⟩, by decide,
        respects_bind hheaders.composes (hrests fuel _ _ 0) hclosing, halted_bind_halts ?_⟩
    have herr : (aligned nothing).errorOccurred = false := rfl
    unfold readEntries
    rw [unlessError_run _ _ herr]
    exact hloop fuel hfuel _ _ 0 (by decide) (Or.inr ⟨hzero, hmax⟩) _ ⟨rfl, rfl⟩ herr

theorem readMapEmpty_diverges (hkey : Decoder key) (hmapped : Decoder mapped)
    (hquietKey : QuietAtEnd key) (hquietMapped : QuietAtEnd mapped) :
    ¬ Terminates fun fuel => readMapEmpty fuel (key fuel) (mapped fuel) := by
  obtain ⟨enough, hloop⟩ := readEntries_diverges hkey hmapped hquietKey hquietMapped
  have hheaders := rests_primitives.headers
  have hwidth : IsWidth 4 := Or.inr (Or.inr rfl)
  obtain ⟨n, u, hread, hpos, hlt, hu, huerr, hc⟩ := headerOnly_read hwidth
  have hread : assignBits 4 32 false BitVec.toNat none (aligned (headerOnly 4 hwidth)) = .ok n u :=
    hread
  refine diverges (s := headerOnly 4 hwidth) (create_good _ _) enough fun fuel hfuel =>
    ⟨u, _, (bind_ok (bitAlign_run _)).trans (bind_ok hread), hu, hc, ?_, ?_⟩
  · exact respects_bind hheaders.composes (respects_readElements hheaders rests_primitives.fuel _ _ _
      (respects_readEntry hheaders (hkey.respects rests_primitives fuel)
        (hmapped.respects rests_primitives fuel)) fuel _ _) (respects_closingEmpty hheaders)
  · exact halted_bind_halts (hloop fuel hfuel _ _ n hlt (Or.inl hpos) u hu huerr)

/-- The loops of covered runs end for every payload, after a number of iterations that depends on
    its length, just if an element that is expected at the end of the payload is an error. -/
theorem element_loops_terminate_iff (helement : Decoder element) (hkey : Decoder key)
    (hmapped : Decoder mapped) (htelement : Terminates element) (htkey : Terminates key)
    (htmapped : Terminates mapped) (array : Option ArrayDeployment) (map : Option MapDeployment) :
    (Terminates (fun fuel => readVector fuel array (element fuel)) ↔
      ¬ IsWidth ((array.map (·.arrayLengthWidth)).getD 4) ∨ ¬ QuietAtEnd element) ∧
    (Terminates (fun fuel => readMap fuel map (key fuel) (mapped fuel)) ↔
      ¬ (QuietAtEnd key ∧ QuietAtEnd mapped) ∨
      (¬ IsWidth ((map.map (·.mapLengthWidth)).getD 4) ∧
        ((map.map (·.mapLengthWidth)).getD 4 = 0 →
          (map.map (·.mapMaxLength)).getD 0xFFFFFFFF ≤ 1))) ∧
    (Terminates (fun fuel => readMapEmpty fuel (key fuel) (mapped fuel)) ↔
      ¬ (QuietAtEnd key ∧ QuietAtEnd mapped)) := by
  have htelement := (terminates_iff helement).1 htelement
  have htkey := (terminates_iff hkey).1 htkey
  have htmapped := (terminates_iff hmapped).1 htmapped
  refine ⟨⟨fun h => ?_, fun h => (terminates_iff (.vector array helement)).2
      (readVector_terminates helement htelement array h)⟩,
    ⟨fun h => ?_, fun h => (terminates_iff (.map map hkey hmapped)).2
      (readMap_terminates hkey hmapped htkey htmapped map h)⟩,
    fun h hquiet => ?_, fun h => (terminates_iff (.mapEmpty hkey hmapped)).2
      (readMapEmpty_terminates hkey hmapped htkey htmapped h)⟩
  · by_contra hno
    rw [not_or, not_not, not_not] at hno
    exact readVector_diverges helement hno.2 array hno.1 h
  · by_contra hno
    rw [not_or, not_not] at hno
    obtain ⟨⟨hquietKey, hquietMapped⟩, hwidth⟩ := hno
    refine readMap_diverges hkey hmapped hquietKey hquietMapped map ?_ h
    by_cases hw : IsWidth ((map.map (·.mapLengthWidth)).getD 4)
    · exact Or.inl hw
    · right
      by_contra hcon
      exact hwidth ⟨hw, fun hzero => by omega⟩
  · exact readMapEmpty_diverges hkey hmapped hquiet.1 hquiet.2 h

end Diverging

theorem readInteger_terminates (type : IntegerType) (depl : Option (IntegerDeployment type.size)) :
    Terminates fun _ => readInteger type depl :=
  (terminates_iff (.integer type depl)).2
    ⟨fun _ => 0, fun _ hs _ _ => endsIn_of (assignBits_halted hs.sound)⟩

/-- Plain integers fail at the end of the payload, and their loops end. -/
theorem integer_loops_terminate :
    Terminates (fun fuel => readVector fuel none (readInteger uint32 none)) :=
  (element_loops_terminate_iff (.integer uint32 none) (.integer uint8 none) (.integer uint8 none)
    (readInteger_terminates _ _) (readInteger_terminates _ _) (readInteger_terminates _ _)
    none none).1.2 (Or.inr (by
      rintro ⟨fuel, a, t, hrun, herror⟩
      cases hrun
      cases herror))

/-- Integers with a declared invalid value succeed at the end of the payload. -/
theorem invalid_value_loops_forever :
    ¬ ∀ (α : Type) (element : ℕ → Read α) (depl : Option ArrayDeployment), Decoder element →
      Terminates element → Terminates fun fuel => readVector fuel depl (element fuel) := by
  intro h
  have helement : Decoder fun _ => readInteger int32 (some ⟨32, some 0⟩) := .integer _ _
  refine readVector_diverges helement ⟨0, 0, _, rfl, rfl⟩ none (Or.inr (Or.inr rfl)) ?_
  exact h _ _ none helement (readInteger_terminates _ _)

end SomeIPRuntime.InputStream
