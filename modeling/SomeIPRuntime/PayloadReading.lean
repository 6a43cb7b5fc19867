import SomeIPRuntime.WireLayout

set_option autoImplicit false

namespace SomeIPRuntime.TypedValues
open Bits ProgramRuns Deployment
open InputStream (Read Decoder HeaderSteps Sound aligned raised skipped logged)
open RoundTrip

structure OnBytes (s : InputStream) : Prop where
  currentBit : s.currentBit = 0
  remaining : s.remaining = s.message.body.length - s.current

abbrev Bytewise {α : Type} (x : Read α) : Prop :=
  Respects (fun s t => OnBytes s → OnBytes t) (fun s e _ => OnBytes s → e ≠ Halt.outOfBounds) x

section Bytes
variable {s t : InputStream}

theorem OnBytes.sound (h : OnBytes s) : Sound s := by
  have hrem := h.remaining
  exact ⟨by rw [h.currentBit]; decide, fun hin => by omega⟩

theorem create_onBytes (message : Message) (le : Bool) : OnBytes (InputStream.create message le) := ⟨rfl, rfl⟩

theorem bytewise_composes : Composes (fun s t : InputStream => OnBytes s → OnBytes t)
    (fun s e (_ : InputStream) => OnBytes s → e ≠ Halt.outOfBounds) where
  refl _ := id
  trans h k := k ∘ h
  absorb h k := k ∘ h

theorem aligned_onBytes (h : OnBytes s) : OnBytes (aligned s) := by
  have hbit : ¬ s.currentBit > 0 := by
    rw [h.currentBit]
    exact lt_irrefl 0
  unfold InputStream.aligned
  rw [if_neg hbit]
  exact ⟨h.currentBit, h.remaining⟩

theorem raised_onBytes (h : OnBytes s) : OnBytes (raised s) := ⟨h.currentBit, h.remaining⟩

theorem skipped_onBytes (size : ℕ) (h : OnBytes s) : OnBytes (skipped size s) := by
  have hrem := h.remaining
  unfold InputStream.skipped
  split
  · refine ⟨h.currentBit, ?_⟩
    change 0 = s.message.body.length - (s.current + size)
    omega
  · refine ⟨h.currentBit, ?_⟩
    change s.remaining - size = s.message.body.length - (s.current + size)
    omega

/-- A field of whole bytes that is there ends at the end of the payload at the latest. -/
theorem readField_bytewise {size bits : ℕ} (isSigned : Bool) (hle : bits ≤ 8 * size) (hbits : bits % 8 = 0) :
    Bytewise (InputStream.readField size bits isSigned) := by
  intro s
  refine outcome_assuming fun h => ?_
  have hbit := h.currentBit
  have hrem := h.remaining
  rcases InputStream.readField_cases h.sound isSigned hle with
    ⟨_, hrun⟩ | ⟨_, _, _, hrun⟩ | ⟨henough, hpast, _⟩
  · rw [hrun]
    exact ⟨hbit, hrem⟩
  · rw [hrun]
    have hposition : InputStream.position s = 8 * s.current := by
      unfold InputStream.position
      omega
    refine ⟨?_, rfl⟩
    change (InputStream.position s + bits) % 8 = 0
    omega
  · rcases (InputStream.enough_iff _ _).1 henough with ⟨hne, hfits⟩
    unfold InputStream.position at hpast
    omega

theorem assignBits_bytewise {β : Type} {size bits : ℕ} {isSigned : Bool} {cast : BitVec (8 * size) → β}
    {invalid : Option β} (hbits : clampBits size bits % 8 = 0) :
    Bytewise (InputStream.assignBits size bits isSigned cast invalid) := by
  intro s
  rw [InputStream.assignBits_run]
  have hread := readField_bytewise isSigned (InputStream.clampBits_le size bits) hbits
    (logged (.assign (clampBits size bits) invalid.isSome) s)
  cases hx : InputStream.readField size (clampBits size bits) isSigned
      (logged (.assign (clampBits size bits) invalid.isSome) s) with
  | error e t =>
    rw [hx] at hread
    exact fun h => hread ⟨h.currentBit, h.remaining⟩
  | ok r t =>
    rw [hx] at hread
    exact fun h => ⟨(hread ⟨h.currentBit, h.remaining⟩).currentBit, (hread ⟨h.currentBit, h.remaining⟩).remaining⟩

theorem ignoreBits_bytewise {size bits : ℕ} {isSigned : Bool} (hbits : clampBits size bits % 8 = 0) :
    Bytewise (InputStream.ignoreBits size bits isSigned) := by
  intro s
  rw [InputStream.ignoreBits_run]
  have hread := readField_bytewise isSigned (InputStream.clampBits_le size bits) hbits
    (logged (.ignore (clampBits size bits)) s)
  cases hx : InputStream.readField size (clampBits size bits) isSigned
      (logged (.ignore (clampBits size bits)) s) with
  | error e t =>
    rw [hx] at hread
    exact fun h => hread ⟨h.currentBit, h.remaining⟩
  | ok r t =>
    rw [hx] at hread
    exact fun h => ⟨(hread ⟨h.currentBit, h.remaining⟩).currentBit, (hread ⟨h.currentBit, h.remaining⟩).remaining⟩

/-- What has been checked against `remaining_` is in the payload. -/
theorem OnBytes.readable (h : OnBytes s) {size : ℕ} (hsize : size ≤ s.remaining) :
    s.current + size ≤ s.message.body.length ∨ size = 0 := by
  have hrem := h.remaining
  omega

theorem clampBits_all (size : ℕ) : clampBits size (8 * size) % 8 = 0 := by
  rw [clampBits_full]
  exact Nat.mul_mod_right 8 size

theorem bytewise_headers : HeaderSteps (fun s t => OnBytes s → OnBytes t)
    (fun s e _ => OnBytes s → e ≠ Halt.outOfBounds) where
  composes := bytewise_composes
  align s := by
    rw [InputStream.bitAlign_run]
    exact aligned_onBytes
  raw size s := by
    rw [InputStream.readRaw_run]
    exact skipped_onBytes size
  raising _ := raised_onBytes
  assign size _ := assignBits_bytewise (clampBits_all size)
  ignore size := ignoreBits_bytewise (clampBits_all size)
  string itsSize encoding s hsize := outcome_assuming fun h => by
    rcases InputStream.readStringData_returns encoding (h.readable hsize) with ⟨isError, value, hrun⟩
    rw [hrun]
    have hskipped := skipped_onBytes itsSize h
    cases isError with
    | false => exact hskipped
    | true => exact raised_onBytes hskipped
  bytes itsSize size s hsize hle := outcome_assuming fun h => by
    have hin := h.readable (hle.trans hsize)
    rw [InputStream.readBytes_run, if_pos hin]
    exact skipped_onBytes itsSize h

end Bytes

/-- A field of an integer or an enumeration: its bits, and whether an invalid value is declared. -/
def everyInteger (good : ℕ → Bool → Bool) (type : IntegerType) (depl : Option (IntegerDeployment type.size)) :
    Bool :=
  good (integerBits type depl) (depl.bind (·.invalid)).isSome

mutual

def DataType.everyField (good : ℕ → Bool → Bool) : DataType → Bool
  | .integer type depl => everyInteger good type depl
  | .rangedInteger _ _ depl => everyInteger good int32 depl
  | .enumerationEmpty base => everyInteger good base none
  | .enumeration base depl =>
    match depl with
    | some d => good (enumerationBits base (some d)) d.invalid.isSome
    | none => everyInteger good base none
  | .structEmpty fields => fields.everyFields good
  | .struct _ fields => fields.everyFields good
  | .variant _ alternatives => alternatives.everyFields good
  | .vector _ element => element.everyField good
  | .map _ key mapped => key.everyField good && mapped.everyField good
  | .mapEmpty key mapped => key.everyField good && mapped.everyField good
  | _ => true

def DataTypes.everyFields (good : ℕ → Bool → Bool) : DataTypes → Bool
  | .nil => true
  | .cons first rest => first.everyField good && rest.everyFields good

end

def takesBytes (bits : ℕ) (_ : Bool) : Bool := bits % 8 = 0

section Reading
variable {R : InputStream → InputStream → Prop} {F : InputStream → Halt → InputStream → Prop}
  {before : (type : DataType) → type.Value} {uninitialised : ℕ × ℕ} {fuel : ℕ} {good : ℕ → Bool → Bool}

structure FieldSteps (good : ℕ → Bool → Bool) (R : InputStream → InputStream → Prop)
    (F : InputStream → Halt → InputStream → Prop) : Prop where
  headers : HeaderSteps R F
  fuel : ∀ s, F s .outOfFuel s
  field : ∀ {β : Type} (size bits : ℕ) (isSigned : Bool) (cast : BitVec (8 * size) → β) (invalid : Option β),
    good (clampBits size bits) invalid.isSome = true →
    Respects R F (InputStream.assignBits size bits isSigned cast invalid)

theorem respects_integer (hp : FieldSteps good R F) (type : IntegerType)
    (depl : Option (IntegerDeployment type.size)) (h : everyInteger good type depl = true) :
    Respects R F (InputStream.readInteger type depl) :=
  hp.field _ _ _ _ _ h

theorem respects_enumeration (hp : FieldSteps good R F) (base : IntegerType)
    (depl : Option (EnumerationDeployment base.size))
    (h : (DataType.enumeration base depl).everyField good = true) :
    Respects R F (InputStream.readEnumeration base depl) := by
  cases depl with
  | none => exact respects_integer hp base none h
  | some d =>
    change good (enumerationBits base (some d)) d.invalid.isSome = true at h
    unfold enumerationBits at h
    unfold InputStream.readEnumeration
    dsimp only at h ⊢
    split
    · rename_i hone
      rw [hone] at h
      exact hp.field _ _ _ _ _ h
    · rename_i htwo
      rw [htwo] at h
      exact hp.field _ _ _ _ _ h
    · rename_i hone htwo
      split at h
      · exact absurd ‹_› hone
      · exact absurd ‹_› htwo
      · exact hp.field _ _ _ _ _ h

mutual

/-- Reading a value respects what each of its fields and the headers respect. -/
theorem DataType.respects (hp : FieldSteps good R F) : ∀ type : DataType, type.everyField good = true →
    Respects R F (type.read before uninitialised fuel)
  | .bool, _ => show Respects R F InputStream.readBool from hp.headers.assign 1 _
  | .integer type depl, h => respects_integer hp type depl h
  | .rangedInteger minimum maximum depl, h =>
    respects_map hp.headers.composes _
      (InputStream.respects_readRangedInteger hp.headers minimum maximum (respects_integer hp int32 depl h))
  | .float, _ => respects_bind hp.headers.composes hp.headers.align fun _ => hp.headers.assign 4 id
  | .double, _ => respects_bind hp.headers.composes hp.headers.align fun _ => hp.headers.assign 8 id
  | .version, _ => InputStream.respects_readVersion hp.headers
  | .enumerationEmpty base, h => respects_integer hp base none h
  | .enumeration base depl, h => respects_enumeration hp base depl h
  | .string depl, _ => InputStream.respects_readString hp.headers depl _
  | .byteBuffer depl, _ => InputStream.respects_readByteBuffer hp.headers depl
  | .byteVector depl, _ => InputStream.respects_readByteVector hp.headers depl
  | .structEmpty fields, h =>
    respects_map hp.headers.composes _ (InputStream.respects_readStructEmpty hp.headers (fields.respectsFields hp h))
  | .struct depl fields, h =>
    respects_map hp.headers.composes _ (InputStream.respects_readStruct hp.headers depl (fields.respectsFields hp h))
  | .variant depl alternatives, h =>
    InputStream.respects_readVariant hp.headers uninitialised depl (alternatives.respectsAlternatives hp h)
  | .vector depl element, h => InputStream.respects_readVector hp.headers hp.fuel fuel depl (element.respects hp h)
  | .map depl key mapped, h =>
    have hboth := Bool.and_eq_true_iff.1 h
    InputStream.respects_readMap hp.headers hp.fuel fuel depl (key.respects hp hboth.1) (mapped.respects hp hboth.2)
  | .mapEmpty key mapped, h =>
    have hboth := Bool.and_eq_true_iff.1 h
    InputStream.respects_readMapEmpty hp.headers hp.fuel fuel (key.respects hp hboth.1) (mapped.respects hp hboth.2)

theorem DataTypes.respectsFields (hp : FieldSteps good R F) : ∀ types : DataTypes, types.everyFields good = true →
    Respects R F (types.readFields before uninitialised fuel)
  | .nil, _ => respects_pure hp.headers.composes _
  | .cons first rest, h =>
    have hboth := Bool.and_eq_true_iff.1 h
    InputStream.respects_readFields hp.headers (first.respects hp hboth.1) (rest.respectsFields hp hboth.2)

theorem DataTypes.respectsAlternatives (hp : FieldSteps good R F) : ∀ types : DataTypes, types.everyFields good = true →
    ∀ d ∈ types.readAlternatives before uninitialised fuel, Respects R F d
  | .nil, _, _, hd => absurd hd List.not_mem_nil
  | .cons first rest, h, d, hd => by
    have hboth := Bool.and_eq_true_iff.1 h
    rcases List.mem_cons.1 hd with rfl | hd
    · exact respects_map hp.headers.composes _ (first.respects hp hboth.1)
    · rcases List.mem_map.1 hd with ⟨e, he, rfl⟩
      exact respects_map hp.headers.composes _ (rest.respectsAlternatives hp hboth.2 e he)

end

end Reading

section Decoding
variable (uninitialised : ℕ × ℕ)

def DataTypes.decoders : (types : DataTypes) → List (ℕ → Read types.Alternative)
  | .nil => []
  | .cons first rest =>
    (fun fuel => Sum.inl <$> first.read DataType.initial uninitialised fuel) ::
      rest.decoders.map fun d fuel => Sum.inr <$> d fuel

theorem DataTypes.readAlternatives_decoders (fuel : ℕ) : ∀ types : DataTypes,
    types.readAlternatives DataType.initial uninitialised fuel = (types.decoders uninitialised).map fun d => d fuel
  | .nil => rfl
  | .cons first rest => by
    unfold DataTypes.readAlternatives DataTypes.decoders
    rw [DataTypes.readAlternatives_decoders fuel rest, List.map_cons, List.map_map, List.map_map]
    rfl

mutual

theorem DataType.decodes : ∀ type : DataType,
    Decoder fun fuel => type.read DataType.initial uninitialised fuel
  | .bool => .bool
  | .integer type depl => .integer type depl
  | .rangedInteger minimum maximum depl => .convert _ (.rangedInteger minimum maximum depl)
  | .float => .float
  | .double => .double
  | .version => .version
  | .enumerationEmpty base => .enumeration base none
  | .enumeration base depl => .enumeration base depl
  | .string depl => .string depl
  | .byteBuffer depl => .byteBuffer depl
  | .byteVector depl => .byteVector depl
  | .structEmpty fields => .convert _ (.structEmpty fields.decodesFields)
  | .struct depl fields => .convert _ (.struct depl fields.decodesFields)
  | .variant depl alternatives => by
    have hvariant := Decoder.variant uninitialised depl alternatives.decodesAlternatives
    have heq : (fun fuel => (DataType.variant depl alternatives).read DataType.initial uninitialised fuel) =
        fun fuel => InputStream.readVariant uninitialised depl
          ((alternatives.decoders uninitialised).map fun d => d fuel) :=
      funext fun fuel => congrArg (InputStream.readVariant uninitialised depl)
        (DataTypes.readAlternatives_decoders uninitialised fuel alternatives)
    rw [heq]
    exact hvariant
  | .vector depl element => .vector depl element.decodes
  | .map depl key mapped => .map depl key.decodes mapped.decodes
  | .mapEmpty key mapped => .mapEmpty key.decodes mapped.decodes

theorem DataTypes.decodesFields : ∀ types : DataTypes,
    Decoder fun fuel => types.readFields DataType.initial uninitialised fuel
  | .nil => .noFields
  | .cons first rest => .fields first.decodes rest.decodesFields

theorem DataTypes.decodesAlternatives : ∀ types : DataTypes, ∀ d ∈ types.decoders uninitialised, Decoder d
  | .nil, _, hd => absurd hd List.not_mem_nil
  | .cons first rest, d, hd => by
    rcases List.mem_cons.1 hd with rfl | hd
    · exact .convert _ first.decodes
    · rcases List.mem_map.1 hd with ⟨e, he, rfl⟩
      exact .convert _ (rest.decodesAlternatives e he)

end

end Decoding

end SomeIPRuntime.TypedValues
