import SomeIPRuntime.InputValues
import SomeIPRuntime.InputSteps

set_option autoImplicit false

/-!
# InputStream: everything a client can run

A `Decoder` is what the containers are applied to: a readValue overload for some
type, with the number of iterations its loops may make as an argument. A
`ReadOp` is a client's program of such reads and of raw ones. A relation between
states that the primitive steps respect is respected by every `ReadOp`.
-/
namespace SomeIPRuntime.InputStream
open Bits ProgramRuns Deployment

/-- `StructReader`: the fields in order, without a look at the error flag. -/
def readFields {α β : Type} (first : Read α) (rest : Read β) : Read (α × β) := do
  let a ← first
  let b ← rest
  pure (a, b)

/-- The readValue overloads, read into fresh variables. -/
inductive Decoder : {α : Type} → (ℕ → Read α) → Prop
  | bool : Decoder fun _ => readBool
  | integer (type : IntegerType) (depl : Option (IntegerDeployment type.size)) :
      Decoder fun _ => readInteger type depl
  | float : Decoder fun _ => readFloat
  | double : Decoder fun _ => readDouble
  | rangedInteger (minimum maximum : ℤ) (depl : Option (IntegerDeployment 4)) :
      Decoder fun _ => readRangedInteger minimum maximum depl
  | enumeration (base : IntegerType) (depl : Option (EnumerationDeployment base.size)) :
      Decoder fun _ => readEnumeration base depl
  | version : Decoder fun _ => readVersion
  | string (depl : Option StringDeployment) : Decoder fun _ => readString depl []
  | byteBuffer (depl : Option ByteBufferDeployment) : Decoder fun _ => readByteBuffer depl
  | noFields : Decoder fun _ => (pure () : Read Unit)
  | fields {α β : Type} {first : ℕ → Read α} {rest : ℕ → Read β} (hfirst : Decoder first)
      (hrest : Decoder rest) : Decoder fun fuel => readFields (first fuel) (rest fuel)
  | structEmpty {α : Type} {fields : ℕ → Read α} (hfields : Decoder fields) :
      Decoder fun fuel => readStructEmpty (fields fuel)
  | struct {α : Type} (depl : Option StructDeployment) {fields : ℕ → Read α}
      (hfields : Decoder fields) : Decoder fun fuel => readStruct depl (fields fuel)
  | polymorphicStruct {α : Type} {create : BitVec 32 → ℕ → Read α}
      (hcreate : ∀ serial, Decoder (create serial)) :
      Decoder fun fuel => readPolymorphicStruct fun serial => create serial fuel
  | variant {α : Type} (uninitialised : ℕ × ℕ) (depl : Option VariantDeployment)
      {alternatives : List (ℕ → Read α)} (halternatives : ∀ d ∈ alternatives, Decoder d) :
      Decoder fun fuel => readVariant uninitialised depl (alternatives.map fun d => d fuel)
  | byteVector (depl : Option ArrayDeployment) : Decoder fun _ => readByteVector depl
  | vector {α : Type} (depl : Option ArrayDeployment) {element : ℕ → Read α}
      (helement : Decoder element) : Decoder fun fuel => readVector fuel depl (element fuel)
  | map {κ ν : Type} [DecidableEq κ] (depl : Option MapDeployment) {key : ℕ → Read κ}
      {mapped : ℕ → Read ν} (hkey : Decoder key) (hmapped : Decoder mapped) :
      Decoder fun fuel => readMap fuel depl (key fuel) (mapped fuel)
  | mapEmpty {κ ν : Type} [DecidableEq κ] {key : ℕ → Read κ} {mapped : ℕ → Read ν}
      (hkey : Decoder key) (hmapped : Decoder mapped) :
      Decoder fun fuel => readMapEmpty fuel (key fuel) (mapped fuel)
  | convert {α β : Type} (f : α → β) {d : ℕ → Read α} (hd : Decoder d) :
      Decoder fun fuel => f <$> d fuel

/-- The programs of a client, in which a read may depend on the values read before. -/
inductive ReadOp : {α : Type} → Read α → Prop
  | decode {α : Type} {d : ℕ → Read α} (hd : Decoder d) (fuel : ℕ) : ReadOp (d fuel)
  | string (depl : Option StringDeployment) (value : List Byte) : ReadOp (readString depl value)
  | width (width : ℕ) (permitZeroWidth : Bool) (value : ℕ) :
      ReadOp (readWidth width permitZeroWidth value)
  | arguments {α : Type} {arguments : List (ℕ → Read α)} (h : ∀ d ∈ arguments, Decoder d)
      (fuel : ℕ) : ReadOp (deserialize (arguments.map fun d => d fuel))
  | readRaw (size : ℕ) : ReadOp (readRaw size)
  | bitAlign : ReadOp bitAlign
  | hasError : ReadOp hasError
  | pure {α : Type} (a : α) : ReadOp (pure a)
  | bind {α β : Type} {x : Read α} {f : α → Read β} (hx : ReadOp x) (hf : ∀ a, ReadOp (f a)) :
      ReadOp (x >>= f)

section Primitives
variable {R : InputStream → InputStream → Prop} {F : InputStream → Halt → InputStream → Prop}

/-- The steps that every read is composed of. What follows a size that was checked
    against `remaining_` may rely on the check. -/
structure Primitives (R : InputStream → InputStream → Prop)
    (F : InputStream → Halt → InputStream → Prop) : Prop where
  composes : Composes R F
  align : Respects R F bitAlign
  raw : ∀ size, Respects R F (readRaw size)
  raising : Respects R F raise
  assign : ∀ {β : Type} (size bits : ℕ) (isSigned : Bool) (cast : BitVec (8 * size) → β)
    (invalid : Option β), Respects R F (assignBits size bits isSigned cast invalid)
  ignore : ∀ (size bits : ℕ) (isSigned : Bool), Respects R F (ignoreBits size bits isSigned)
  string : ∀ (itsSize : ℕ) (encoding : StringEncoding) (s : InputStream),
    itsSize ≤ s.remaining → Outcome R F s (readStringData itsSize encoding s)
  bytes : ∀ (itsSize size : ℕ) (s : InputStream), itsSize ≤ s.remaining → size ≤ itsSize →
    Outcome R F s ((readRaw itsSize >>= fun base => dereferenceRange base size) s)
  fuel : ∀ s, F s .outOfFuel s

structure HeaderSteps (R : InputStream → InputStream → Prop)
    (F : InputStream → Halt → InputStream → Prop) : Prop where
  composes : Composes R F
  align : Respects R F bitAlign
  raw : ∀ size, Respects R F (readRaw size)
  raising : Respects R F raise
  assign : ∀ {β : Type} (size : ℕ) (cast : BitVec (8 * size) → β),
    Respects R F (assignBits size (8 * size) false cast none)
  ignore : ∀ size, Respects R F (ignoreBits size (8 * size) false)
  string : ∀ (itsSize : ℕ) (encoding : StringEncoding) (s : InputStream),
    itsSize ≤ s.remaining → Outcome R F s (readStringData itsSize encoding s)
  bytes : ∀ (itsSize size : ℕ) (s : InputStream), itsSize ≤ s.remaining → size ≤ itsSize →
    Outcome R F s ((readRaw itsSize >>= fun base => dereferenceRange base size) s)

theorem Primitives.headers (hp : Primitives R F) : HeaderSteps R F where
  composes := hp.composes
  align := hp.align
  raw := hp.raw
  raising := hp.raising
  assign size cast := hp.assign size (8 * size) false cast none
  ignore size := hp.ignore size (8 * size) false
  string := hp.string
  bytes := hp.bytes

theorem Primitives.imp {R' : InputStream → InputStream → Prop} {F' : InputStream → Halt → InputStream → Prop}
    (hp : Primitives R F) (hc : Composes R' F') (hR : ∀ s t, R s t → R' s t)
    (hF : ∀ s e t, F s e t → F' s e t) : Primitives R' F' where
  composes := hc
  align := (hp.align).imp hR hF
  raw size := (hp.raw size).imp hR hF
  raising := hp.raising.imp hR hF
  assign size bits isSigned cast invalid := (hp.assign size bits isSigned cast invalid).imp hR hF
  ignore size bits isSigned := (hp.ignore size bits isSigned).imp hR hF
  string itsSize encoding s h := (hp.string itsSize encoding s h).imp (hR s) (hF s)
  bytes itsSize size s h hle := (hp.bytes itsSize size s h hle).imp (hR s) (hF s)
  fuel s := hF s .outOfFuel s (hp.fuel s)

section Headers
variable (hp : HeaderSteps R F)
include hp

theorem respects_hasError : Respects R F hasError :=
  respects_bind hp.composes (respects_get hp.composes) fun _ => respects_pure hp.composes _

theorem respects_readRangedInteger (minimum maximum : ℤ) {depl : Option (IntegerDeployment 4)}
    (hinteger : Respects R F (readInt32 depl)) :
    Respects R F (readRangedInteger minimum maximum depl) := by
  unfold readRangedInteger
  refine respects_bind hp.composes hinteger fun tempValue => ?_
  have hend : Respects R F (do
      if ← hasError then pure none else pure (some tempValue) : Read (Option (BitVec 32))) :=
    respects_bind hp.composes (respects_hasError hp) fun _ =>
      respects_ite (respects_pure hp.composes _) (respects_pure hp.composes _)
  exact respects_ite (respects_bind hp.composes hp.raising fun _ => hend) hend

theorem respects_readWidth (width : ℕ) (permitZeroWidth : Bool) (value : ℕ) :
    Respects R F (readWidth width permitZeroWidth value) := by
  have hraise : Respects R F (do raise; pure value) :=
    respects_bind hp.composes hp.raising fun _ => respects_pure hp.composes _
  unfold readWidth
  split
  · exact respects_ite (respects_pure hp.composes _) hraise
  · exact hp.assign 1 _
  · exact hp.assign 2 _
  · exact hp.assign 4 _
  · exact hraise

theorem respects_readVersion : Respects R F readVersion := by
  refine respects_bind hp.composes hp.align fun _ => ?_
  refine respects_bind hp.composes (hp.ignore 4) fun _ => ?_
  exact respects_bind hp.composes (hp.ignore 4) fun _ => respects_pure hp.composes _

theorem outcome_unlessError {α : Type} {tail : Read α} (value : α) {s : InputStream}
    (htail : s.errorOccurred = false → Outcome R F s (tail s)) :
    Outcome R F s ((do if ← hasError then pure value else tail : Read α) s) := by
  have hrun : (do if ← hasError then pure value else tail : Read α) s =
      (if s.errorOccurred then pure value else tail : Read α) s := rfl
  rw [hrun]
  split
  · exact hp.composes.refl s
  · exact htail (by simpa using ‹¬ s.errorOccurred = true›)

theorem respects_unlessError {α : Type} {tail : Read α} (value : α) (htail : Respects R F tail) :
    Respects R F (do if ← hasError then pure value else tail) :=
  fun s => outcome_unlessError hp value fun _ => htail s

/-- A check that raises the error flag guards what follows it. -/
theorem outcome_guarded {α : Type} {tail : Read α} (value : α) {s : InputStream} {c : Prop}
    [Decidable c] (htail : ¬ c → Outcome R F s (tail s)) :
    Outcome R F s ((do
      if c then
        raise
      if ← hasError then pure value else tail : Read α) s) := by
  by_cases hc : c
  · simp only [hc, ↓reduceIte]
    refine outcome_bind hp.composes (hp.raising s) fun _ t ht => ?_
    refine outcome_unlessError hp value fun herr => ?_
    rw [raise_run] at ht
    cases ht
    cases herr
  · simp only [hc, ↓reduceIte]
    exact outcome_unlessError hp value fun _ => htail hc

theorem respects_guarded {α : Type} {tail : Read α} (value : α) {c : InputStream → Prop}
    [∀ s, Decidable (c s)] (htail : ∀ s, ¬ c s → Outcome R F s (tail s)) :
    Respects R F (do
      let s ← get
      if c s then
        raise
      if ← hasError then pure value else tail) := by
  intro s
  refine outcome_bind hp.composes (hp.composes.refl s) fun u t ht => ?_
  cases ht
  exact outcome_guarded hp value (htail s)

theorem respects_readStringSize (depl : Option StringDeployment) :
    Respects R F (readStringSize depl) := by
  unfold readStringSize
  split
  · exact respects_ite (respects_pure hp.composes _) (respects_readWidth hp _ _ _)
  · exact respects_readWidth hp _ _ _

theorem respects_readByteCount (lengthWidth maxLength : ℕ) :
    Respects R F (readByteCount lengthWidth maxLength) :=
  respects_ite (respects_readWidth hp _ _ _) (respects_pure hp.composes _)

theorem respects_readString (depl : Option StringDeployment) (value : List Byte) :
    Respects R F (readString depl value) := by
  refine respects_bind hp.composes hp.align fun _ => ?_
  refine respects_bind hp.composes (respects_readStringSize hp depl) fun itsSize => ?_
  exact respects_guarded hp value (c := fun s => itsSize > s.remaining) fun s h =>
    hp.string itsSize _ s (by omega)

theorem respects_readByteBuffer (depl : Option ByteBufferDeployment) :
    Respects R F (readByteBuffer depl) := by
  refine respects_bind hp.composes hp.align fun _ => ?_
  refine respects_bind hp.composes (respects_readByteCount hp _ _) fun itsSize => ?_
  refine respects_guarded hp [] (c := fun s => _ ∨ itsSize > s.remaining) fun s h => ?_
  refine hp.bytes itsSize _ s (by omega) ?_
  split <;> omega

theorem respects_readFields {α β : Type} {first : Read α} {rest : Read β}
    (hfirst : Respects R F first) (hrest : Respects R F rest) :
    Respects R F (readFields first rest) :=
  respects_bind hp.composes hfirst fun _ => respects_bind hp.composes hrest fun _ =>
    respects_pure hp.composes _

theorem respects_readStructEmpty {α : Type} {fields : Read α} (hfields : Respects R F fields) :
    Respects R F (readStructEmpty fields) :=
  respects_bind hp.composes hp.align fun _ =>
    respects_unlessError hp none (respects_map hp.composes some hfields)

theorem respects_readStructFields {α : Type} (structLengthWidth itsSize : ℕ) {fields : Read α}
    (hfields : Respects R F fields) :
    Respects R F (readStructFields structLengthWidth itsSize fields) := by
  refine respects_bind hp.composes (respects_get hp.composes) fun start => ?_
  refine respects_bind hp.composes hfields fun value => ?_
  have hend : Respects R F (pure (some value) : Read (Option α)) := respects_pure hp.composes _
  refine respects_ite ?_ hend
  refine respects_bind hp.composes (respects_get hp.composes) fun stop => ?_
  exact respects_ite (respects_bind hp.composes (hp.raw _) fun _ => hend) hend

theorem respects_readStruct {α : Type} (depl : Option StructDeployment) {fields : Read α}
    (hfields : Respects R F fields) : Respects R F (readStruct depl fields) := by
  refine respects_bind hp.composes hp.align fun _ => ?_
  refine respects_bind hp.composes (respects_readWidth hp _ _ _) fun itsSize => ?_
  exact respects_unlessError hp none (respects_readStructFields hp _ itsSize hfields)

theorem respects_readPolymorphicStruct {α : Type} {create : BitVec 32 → Read α}
    (hcreate : ∀ serial, Respects R F (create serial)) :
    Respects R F (readPolymorphicStruct create) :=
  respects_bind hp.composes hp.align fun _ =>
    respects_bind hp.composes (hp.assign 4 id) fun serial =>
      respects_unlessError hp none (respects_map hp.composes some (hcreate serial))

theorem respects_visitAlternative {α : Type} {alternatives : List (Read α)}
    (halternatives : ∀ d ∈ alternatives, Respects R F d) (valueType : ℕ) :
    Respects R F (visitAlternative alternatives valueType) := by
  unfold visitAlternative
  refine respects_ite ?_ (respects_pure hp.composes _)
  split
  · rename_i alternative hget
    exact respects_map hp.composes some (halternatives alternative (List.mem_of_getElem? hget))
  · exact respects_pure hp.composes _

theorem respects_readUnionHeader (unionDefaultOrder : Bool)
    (unionLengthWidth unionTypeWidth : ℕ) (uninitialised : ℕ × ℕ) :
    Respects R F
      (readUnionHeader unionDefaultOrder unionLengthWidth unionTypeWidth uninitialised) := by
  refine respects_ite ?_ ?_ <;>
    exact respects_bind hp.composes (respects_readWidth hp _ _ _) fun _ =>
      respects_bind hp.composes (respects_readWidth hp _ _ _) fun _ => respects_pure hp.composes _

theorem respects_skipPadding (padding : Option ℕ) : Respects R F (skipPadding padding) := by
  unfold skipPadding
  split
  · exact hp.raising
  · refine respects_bind hp.composes (respects_hasError hp) fun err => ?_
    exact respects_ite (respects_bind hp.composes (hp.raw _) fun _ => respects_pure hp.composes _)
      (respects_pure hp.composes _)

theorem respects_readAlternative {α : Type} (announced itsType : ℕ)
    {alternatives : List (Read α)} (halternatives : ∀ d ∈ alternatives, Respects R F d) :
    Respects R F (readAlternative announced itsType alternatives) := by
  refine respects_bind hp.composes (respects_get hp.composes) fun start => ?_
  refine respects_bind hp.composes (respects_visitAlternative hp halternatives _) fun value => ?_
  refine respects_bind hp.composes (respects_get hp.composes) fun stop => ?_
  exact respects_bind hp.composes (respects_skipPadding hp _) fun _ => respects_pure hp.composes _

theorem respects_readVariant {α : Type} (uninitialised : ℕ × ℕ) (depl : Option VariantDeployment)
    {alternatives : List (Read α)} (halternatives : ∀ d ∈ alternatives, Respects R F d) :
    Respects R F (readVariant uninitialised depl alternatives) := by
  refine respects_bind hp.composes hp.align fun _ => ?_
  refine respects_bind hp.composes (respects_readUnionHeader hp _ _ _ _) fun header => ?_
  obtain ⟨itsSize, itsType⟩ := header
  intro s
  exact outcome_guarded hp (0, none) fun _ => respects_readAlternative hp _ _ halternatives s

theorem respects_readByteVector (depl : Option ArrayDeployment) :
    Respects R F (readByteVector depl) := by
  refine respects_bind hp.composes hp.align fun _ => ?_
  refine respects_bind hp.composes (respects_readByteCount hp _ _) fun itsSize => ?_
  exact respects_guarded hp [] (c := fun s => _ ∨ itsSize > s.remaining) fun s h =>
    hp.bytes itsSize _ s (by omega) le_rfl

theorem respects_readElements (hfuel : ∀ s, F s .outOfFuel s) {γ : Type} (lengthWidth maxLength : ℕ)
    (size : γ → ℕ) {read : γ → Read (Option γ)} (hread : ∀ value, Respects R F (read value))
    (fuel itsSize : ℕ) (value : γ) :
    Respects R F (readElements lengthWidth maxLength size read fuel itsSize value) := by
  induction fuel generalizing itsSize value with
  | zero =>
    unfold readElements
    exact respects_ite hfuel (respects_pure hp.composes _)
  | succ fuel ih =>
    unfold readElements
    refine respects_ite ?_ (respects_pure hp.composes _)
    refine respects_bind hp.composes (respects_get hp.composes) fun start => ?_
    refine respects_bind hp.composes (hread value) fun result => ?_
    cases result with
    | none => exact respects_pure hp.composes _
    | some value =>
      refine respects_bind hp.composes (respects_get hp.composes) fun stop => ?_
      exact ih _ _

theorem respects_checkLength (lengthWidth minLength maxLength itsSize size : ℕ) :
    Respects R F (checkLength lengthWidth minLength maxLength itsSize size) := by
  have hif : ∀ (c : Prop) [Decidable c] (rest : Read Unit), Respects R F rest →
      Respects R F (if c then raise >>= fun _ => rest else rest) := by
    intro c _ rest hrest
    exact respects_ite (respects_bind hp.composes hp.raising fun _ => hrest) hrest
  have hend : ∀ (c : Prop) [Decidable c], Respects R F (if c then raise else pure () : Read Unit) := by
    intro c _
    exact respects_ite hp.raising (respects_pure hp.composes _)
  refine respects_ite ?_ (hend _)
  exact hif _ _ (hif _ _ (hend _))

/-- The end of a container, when its elements have been read. -/
theorem respects_closing {γ : Type} (lengthWidth minLength maxLength : ℕ) (size : γ → ℕ) (result : ℕ × γ) :
    Respects R F (do
      checkLength lengthWidth minLength maxLength result.1 (size result.2)
      pure result.2) :=
  respects_bind hp.composes (respects_checkLength hp _ _ _ _ _) fun _ => respects_pure hp.composes _

theorem respects_closingEmpty {γ : Type} (result : ℕ × γ) :
    Respects R F (do
      if result.1 ≠ 0 then
        raise
      pure result.2) :=
  respects_ite (respects_bind hp.composes hp.raising fun _ => respects_pure hp.composes _)
    (respects_pure hp.composes _)

theorem respects_pushElement {α : Type} {element : Read α} (helement : Respects R F element)
    (value : List α) : Respects R F (pushElement element value) :=
  respects_bind hp.composes helement fun _ =>
    respects_unlessError hp none (respects_pure hp.composes _)

theorem respects_readVector (hfuel : ∀ s, F s .outOfFuel s) {α : Type} (fuel : ℕ)
    (depl : Option ArrayDeployment) {element : Read α} (helement : Respects R F element) :
    Respects R F (readVector fuel depl element) := by
  refine respects_bind hp.composes hp.align fun _ => ?_
  refine respects_bind hp.composes (respects_readWidth hp _ _ _) fun itsSize => ?_
  refine respects_unlessError hp [] ?_
  exact respects_bind hp.composes
    (respects_readElements hp hfuel _ _ _ (respects_pushElement hp helement) fuel _ _)
    (respects_closing hp _ _ _ List.length)

section Maps
variable {κ ν : Type} [DecidableEq κ] {key : Read κ} {mapped : Read ν}

theorem respects_readEntry (hkey : Respects R F key) (hmapped : Respects R F mapped)
    (value : List (κ × ν)) : Respects R F (readEntry key mapped value) :=
  respects_bind hp.composes hkey fun _ => respects_unlessError hp none <|
    respects_bind hp.composes hmapped fun _ =>
      respects_unlessError hp none (respects_pure hp.composes _)

theorem respects_readEntries (hfuel : ∀ s, F s .outOfFuel s) (fuel mapLengthWidth mapMaxLength itsSize : ℕ)
    (hkey : Respects R F key) (hmapped : Respects R F mapped) :
    Respects R F (readEntries fuel mapLengthWidth mapMaxLength itsSize key mapped) :=
  respects_unlessError hp _
    (respects_readElements hp hfuel _ _ _ (respects_readEntry hp hkey hmapped) fuel _ _)

theorem respects_readMap (hfuel : ∀ s, F s .outOfFuel s) (fuel : ℕ) (depl : Option MapDeployment)
    (hkey : Respects R F key) (hmapped : Respects R F mapped) :
    Respects R F (readMap fuel depl key mapped) := by
  refine respects_bind hp.composes hp.align fun _ => ?_
  refine respects_bind hp.composes (respects_readWidth hp _ _ _) fun itsSize => ?_
  exact respects_bind hp.composes (respects_readEntries hp hfuel fuel _ _ itsSize hkey hmapped)
    (respects_closing hp _ _ _ List.length)

theorem respects_readMapEmpty (hfuel : ∀ s, F s .outOfFuel s) (fuel : ℕ) (hkey : Respects R F key)
    (hmapped : Respects R F mapped) : Respects R F (readMapEmpty fuel key mapped) := by
  refine respects_bind hp.composes hp.align fun _ => ?_
  refine respects_bind hp.composes (hp.assign 4 _) fun itsSize => ?_
  exact respects_bind hp.composes
    (respects_readElements hp hfuel _ _ _ (respects_readEntry hp hkey hmapped) fuel _ _)
    (respects_closingEmpty hp)

end Maps

theorem respects_deserialize {α : Type} {arguments : List (Read α)}
    (harguments : ∀ d ∈ arguments, Respects R F d) : Respects R F (deserialize arguments) := by
  induction arguments with
  | nil => exact respects_pure hp.composes _
  | cons argument rest ih =>
    refine respects_bind hp.composes (harguments argument List.mem_cons_self) fun value => ?_
    refine respects_unlessError hp _ ?_
    refine respects_bind hp.composes (ih fun d hd => harguments d (List.mem_cons_of_mem _ hd)) ?_
    exact fun _ => respects_pure hp.composes _

end Headers

section All
variable (hp : Primitives R F)
include hp

theorem respects_readInteger (type : IntegerType) (depl : Option (IntegerDeployment type.size)) :
    Respects R F (readInteger type depl) := hp.assign _ _ _ _ _

theorem respects_readEnumeration (base : IntegerType)
    (depl : Option (EnumerationDeployment base.size)) : Respects R F (readEnumeration base depl) := by
  unfold readEnumeration
  split
  · split <;> exact hp.assign _ _ _ _ _
  · exact respects_readInteger hp base none

/-- Whatever the primitive steps respect, every overload respects. -/
theorem Decoder.respects {α : Type} {d : ℕ → Read α} (hd : Decoder d) (fuel : ℕ) :
    Respects R F (d fuel) := by
  induction hd with
  | bool => exact hp.assign _ _ _ _ _
  | integer type depl => exact respects_readInteger hp type depl
  | float => exact respects_bind hp.composes hp.align fun _ => hp.assign _ _ _ _ _
  | double => exact respects_bind hp.composes hp.align fun _ => hp.assign _ _ _ _ _
  | rangedInteger minimum maximum depl =>
    exact respects_readRangedInteger hp.headers minimum maximum (respects_readInteger hp int32 depl)
  | enumeration base depl => exact respects_readEnumeration hp base depl
  | version => exact respects_readVersion hp.headers
  | string depl => exact respects_readString hp.headers depl []
  | byteBuffer depl => exact respects_readByteBuffer hp.headers depl
  | noFields => exact respects_pure hp.composes _
  | fields _ _ ihfirst ihrest => exact respects_readFields hp.headers ihfirst ihrest
  | structEmpty _ ih => exact respects_readStructEmpty hp.headers ih
  | struct depl _ ih => exact respects_readStruct hp.headers depl ih
  | polymorphicStruct _ ih => exact respects_readPolymorphicStruct hp.headers ih
  | variant uninitialised depl _ ih =>
    refine respects_readVariant hp.headers uninitialised depl fun d hd => ?_
    obtain ⟨e, he, rfl⟩ := List.mem_map.1 hd
    exact ih e he
  | byteVector depl => exact respects_readByteVector hp.headers depl
  | vector depl _ ih => exact respects_readVector hp.headers hp.fuel fuel depl ih
  | map depl _ _ ihkey ihmapped => exact respects_readMap hp.headers hp.fuel fuel depl ihkey ihmapped
  | mapEmpty _ _ ihkey ihmapped => exact respects_readMapEmpty hp.headers hp.fuel fuel ihkey ihmapped
  | convert f _ ih => exact respects_map hp.composes f ih

theorem ReadOp.respects {α : Type} {r : Read α} (hr : ReadOp r) : Respects R F r := by
  induction hr with
  | decode hd fuel => exact Decoder.respects hp hd fuel
  | string depl value => exact respects_readString hp.headers depl value
  | width width permitZeroWidth value => exact respects_readWidth hp.headers width permitZeroWidth value
  | arguments h fuel =>
    refine respects_deserialize hp.headers fun r hr => ?_
    obtain ⟨d, hd, rfl⟩ := List.mem_map.1 hr
    exact Decoder.respects hp (h d hd) fuel
  | readRaw size => exact hp.raw size
  | bitAlign => exact hp.align
  | hasError => exact respects_hasError hp.headers
  | pure a => exact respects_pure hp.composes a
  | bind _ _ ihx ihf => exact respects_bind hp.composes ihx ihf

end All

end Primitives

end SomeIPRuntime.InputStream
