import SomeIPRuntime.ByteVectors
import SomeIPRuntime.EnumerationRoundTrip
import SomeIPRuntime.ByteBufferRoundTrip
import SomeIPRuntime.ExtendedStructs
import SomeIPRuntime.MapRoundTrip
import SomeIPRuntime.StringRoundTrip

set_option autoImplicit false

namespace SomeIPRuntime.TypedValues
open Bits Deployment
open InputStream (Read)
open OutputStream (Write fieldWidth)
open RoundTrip

mutual

/-- One constructor for each overload; the deployments of constituents are with these. A vector of an
    8-bit integer is a `byteVector`: `vector` of one is no type of the streams. -/
inductive DataType
  | bool
  | integer (type : IntegerType) (depl : Option (IntegerDeployment type.size))
  | rangedInteger (minimum maximum : ℤ) (depl : Option (IntegerDeployment 4))
  | float
  | double
  | version
  | enumerationEmpty (base : IntegerType)
  | enumeration (base : IntegerType) (depl : Option (EnumerationDeployment base.size))
  | string (depl : Option StringDeployment)
  | byteBuffer (depl : Option ByteBufferDeployment)
  | byteVector (depl : Option ArrayDeployment)
  | structEmpty (fields : DataTypes)
  | struct (depl : Option StructDeployment) (fields : DataTypes)
  | variant (depl : Option VariantDeployment) (alternatives : DataTypes)
  | vector (depl : Option ArrayDeployment) (element : DataType)
  | map (depl : Option MapDeployment) (key mapped : DataType)
  | mapEmpty (key mapped : DataType)

inductive DataTypes
  | nil
  | cons (first : DataType) (rest : DataTypes)

end

def DataTypes.length : DataTypes → ℕ
  | .nil => 0
  | .cons _ rest => rest.length + 1

mutual

/-- The values of a variant are `valueType_` and the alternative that is stored. -/
def DataType.Value : DataType → Type
  | .bool => Bool
  | .integer type _ => BitVec (8 * type.size)
  | .rangedInteger _ _ _ => BitVec 32
  | .float => BitVec 32
  | .double => BitVec 64
  | .version => InputStream.Version
  | .enumerationEmpty base => BitVec (8 * base.size)
  | .enumeration base _ => BitVec (8 * base.size)
  | .string _ => List Byte
  | .byteBuffer _ => List Byte
  | .byteVector _ => List Byte
  | .structEmpty fields => fields.Values
  | .struct _ fields => fields.Values
  | .variant _ alternatives => ℕ × Option alternatives.Alternative
  | .vector _ element => List element.Value
  | .map _ key mapped => List (key.Value × mapped.Value)
  | .mapEmpty key mapped => List (key.Value × mapped.Value)

def DataTypes.Values : DataTypes → Type
  | .nil => Unit
  | .cons first rest => first.Value × rest.Values

def DataTypes.Alternative : DataTypes → Type
  | .nil => Empty
  | .cons first rest => first.Value ⊕ rest.Alternative

end

mutual

def DataType.decEq : (type : DataType) → DecidableEq type.Value
  | .bool => inferInstanceAs (DecidableEq Bool)
  | .integer type _ => inferInstanceAs (DecidableEq (BitVec (8 * type.size)))
  | .rangedInteger _ _ _ | .float => inferInstanceAs (DecidableEq (BitVec 32))
  | .double => inferInstanceAs (DecidableEq (BitVec 64))
  | .version => inferInstanceAs (DecidableEq InputStream.Version)
  | .enumerationEmpty base => inferInstanceAs (DecidableEq (BitVec (8 * base.size)))
  | .enumeration base _ => inferInstanceAs (DecidableEq (BitVec (8 * base.size)))
  | .string _ | .byteBuffer _ | .byteVector _ => inferInstanceAs (DecidableEq (List Byte))
  | .structEmpty fields => fields.decEqValues
  | .struct _ fields => fields.decEqValues
  | .variant _ alternatives =>
    @instDecidableEqProd _ _ _ (@Option.instDecidableEq _ alternatives.decEqAlternative)
  | .vector _ element => @instDecidableEqList _ element.decEq
  | .map _ key mapped => @instDecidableEqList _ (@instDecidableEqProd _ _ key.decEq mapped.decEq)
  | .mapEmpty key mapped => @instDecidableEqList _ (@instDecidableEqProd _ _ key.decEq mapped.decEq)

def DataTypes.decEqValues : (types : DataTypes) → DecidableEq types.Values
  | .nil => inferInstanceAs (DecidableEq Unit)
  | .cons first rest => @instDecidableEqProd _ _ first.decEq rest.decEqValues

def DataTypes.decEqAlternative : (types : DataTypes) → DecidableEq types.Alternative
  | .nil => inferInstanceAs (DecidableEq Empty)
  | .cons first rest => @instDecidableEqSum _ _ first.decEq rest.decEqAlternative

end

instance (type : DataType) : DecidableEq type.Value := type.decEq

mutual

def DataType.initial : (type : DataType) → type.Value
  | .bool => false
  | .integer type _ => (0 : BitVec (8 * type.size))
  | .rangedInteger _ _ _ | .float => (0 : BitVec 32)
  | .double => (0 : BitVec 64)
  | .version => (⟨0, 0⟩ : InputStream.Version)
  | .enumerationEmpty base => (0 : BitVec (8 * base.size))
  | .enumeration base _ => (0 : BitVec (8 * base.size))
  | .string _ | .byteBuffer _ | .byteVector _ => ([] : List Byte)
  | .structEmpty fields => fields.initials
  | .struct _ fields => fields.initials
  | .variant _ _ => (0, none)
  | .vector _ _ => []
  | .map _ _ _ => []
  | .mapEmpty _ _ => []

def DataTypes.initials : (types : DataTypes) → types.Values
  | .nil => ()
  | .cons first rest => (first.initial, rest.initials)

end

/-- The `valueType_` that an alternative has: the first one has the highest. -/
def DataTypes.number : (types : DataTypes) → types.Alternative → ℕ
  | .cons _ rest, .inl _ => rest.length + 1
  | .cons _ rest, .inr alternative => rest.number alternative

mutual

def DataType.write : (type : DataType) → type.Value → Write Unit
  | .bool, value => OutputStream.writeBool value
  | .integer type depl, value => OutputStream.writeInteger type depl value
  | .rangedInteger minimum maximum depl, value =>
    OutputStream.writeRangedInteger minimum maximum depl value
  | .float, value => OutputStream.writeFloat value
  | .double, value => OutputStream.writeDouble value
  | .version, value => OutputStream.writeVersion value.major value.minor
  | .enumerationEmpty base, value => OutputStream.writeEnumerationEmpty base value
  | .enumeration base depl, value => OutputStream.writeEnumeration base depl value
  | .string depl, value => OutputStream.writeString depl value
  | .byteBuffer depl, value => OutputStream.writeByteBuffer depl value
  | .byteVector depl, value => OutputStream.writeByteVector depl value
  | .structEmpty fields, values => OutputStream.writeStructEmpty (fields.writeFields values)
  | .struct depl fields, values => OutputStream.writeStruct depl (fields.writeFields values)
  | .variant depl alternatives, (valueType, some alternative) =>
    OutputStream.writeVariant depl alternatives.length valueType
      (alternatives.writeAlternative alternative)
  | .variant depl alternatives, (valueType, none) =>
    OutputStream.writeVariant depl alternatives.length valueType (pure ())
  | .vector depl element, values => OutputStream.writeVector depl element.write values
  | .map depl key mapped, entries => OutputStream.writeMap depl key.write mapped.write entries
  | .mapEmpty key mapped, entries => OutputStream.writeMapEmpty key.write mapped.write entries

def DataTypes.writeFields : (types : DataTypes) → types.Values → Write Unit
  | .nil, _ => pure ()
  | .cons first rest, (value, values) => do
    first.write value
    rest.writeFields values

def DataTypes.writeAlternative : (types : DataTypes) → types.Alternative → Write Unit
  | .cons first _, .inl value => first.write value
  | .cons _ rest, .inr alternative => rest.writeAlternative alternative

end

section Reading
variable (before : (type : DataType) → type.Value) (uninitialised : ℕ × ℕ) (fuel : ℕ)

mutual

def DataType.read : (type : DataType) → Read type.Value
  | .bool => InputStream.readBool
  | .integer type depl => InputStream.readInteger type depl
  | .rangedInteger minimum maximum depl =>
    (·.getD (before (.rangedInteger minimum maximum depl))) <$>
      InputStream.readRangedInteger minimum maximum depl
  | .float => InputStream.readFloat
  | .double => InputStream.readDouble
  | .version => InputStream.readVersion
  | .enumerationEmpty base => InputStream.readEnumeration base none
  | .enumeration base depl => InputStream.readEnumeration base depl
  | .string depl => InputStream.readString depl (before (.string depl))
  | .byteBuffer depl => InputStream.readByteBuffer depl
  | .byteVector depl => InputStream.readByteVector depl
  | .structEmpty fields =>
    (·.getD (before (.structEmpty fields))) <$> InputStream.readStructEmpty fields.readFields
  | .struct depl fields =>
    (·.getD (before (.struct depl fields))) <$> InputStream.readStruct depl fields.readFields
  | .variant depl alternatives =>
    InputStream.readVariant uninitialised depl alternatives.readAlternatives
  | .vector depl element => InputStream.readVector fuel depl element.read
  | .map depl key mapped => InputStream.readMap fuel depl key.read mapped.read
  | .mapEmpty key mapped => InputStream.readMapEmpty fuel key.read mapped.read

def DataTypes.readFields : (types : DataTypes) → Read types.Values
  | .nil => pure ()
  | .cons first rest => do
    let value ← first.read
    let values ← rest.readFields
    pure (value, values)

def DataTypes.readAlternatives : (types : DataTypes) → List (Read types.Alternative)
  | .nil => []
  | .cons first rest => (Sum.inl <$> first.read) :: rest.readAlternatives.map (Sum.inr <$> ·)

end

end Reading

def toByte (n : ℕ) : ℕ := (n + 7) / 8 * 8

def stringSize (depl : Option StringDeployment) (value : List Byte) : ℕ :=
  match OutputStream.encodeString (stringEncoding depl) value with
  | .ok bytes =>
    if stringLengthWidth depl ≠ 0 then fieldWidth (stringLengthWidth depl) + (bytes.length + 4)
    else if stringLength depl < bytes.length + 4 then 0
    else stringLength depl
  | .error _ => 0

def byteBufferSize (depl : Option ByteBufferDeployment) (size : ℕ) : ℕ :=
  if byteBufferLengthWidth depl ≠ 0 ∧ byteBufferMaxLength depl > 0 ∧ byteBufferMaxLength depl < size then
    byteBufferMaxLength depl
  else
    size % 2 ^ 32

def enumerationBits (base : IntegerType) (depl : Option (EnumerationDeployment base.size)) : ℕ :=
  match depl with
  | some depl =>
    match depl.bits >>> 3 with
    | 1 => clampBits 1 depl.bits
    | 2 => clampBits 2 depl.bits
    | _ => clampBits base.size depl.bits
  | none => 8

def integerBits (type : IntegerType) (depl : Option (IntegerDeployment type.size)) : ℕ :=
  clampBits type.size ((depl.map (·.bits)).getD (8 * type.size))

def contentStart (n width : ℕ) : ℕ := toByte n + 8 * fieldWidth width

def variantStart (depl : Option VariantDeployment) (n : ℕ) : ℕ :=
  toByte n + 8 * (fieldWidth (InputStream.lengthWidth depl) + fieldWidth (InputStream.typeWidth depl))

def afterItems {α : Type} (after : α → ℕ → ℕ) (items : List α) (n : ℕ) : ℕ :=
  items.foldl (fun m item => after item m) n

mutual

/-- The bit position behind a value that is written at bit position `n`. -/
def DataType.after : (type : DataType) → type.Value → ℕ → ℕ
  | .bool, _, n => n + 8
  | .integer type depl, _, n => n + integerBits type depl
  | .rangedInteger _ _ depl, _, n => n + integerBits int32 depl
  | .float, _, n => n + 32
  | .double, _, n => n + 64
  | .version, _, n => toByte n + 64
  | .enumerationEmpty base, _, n => n + 8 * base.size
  | .enumeration base depl, _, n => n + enumerationBits base depl
  | .string depl, value, n => toByte n + 8 * stringSize depl value
  | .byteBuffer depl, value, n =>
    toByte n + 8 * (fieldWidth (byteBufferLengthWidth depl) +
      (value.take (byteBufferSize depl value.length)).length)
  | .byteVector depl, value, n => contentStart n (arrayLengthWidth depl) + 8 * value.length
  | .structEmpty fields, values, n => fields.afterFields values (toByte n)
  | .struct depl fields, values, n => fields.afterFields values (contentStart n (structLengthWidth depl))
  | .variant depl alternatives, (_, some alternative), n =>
    alternatives.afterAlternative alternative (variantStart depl n)
  | .variant depl _, (_, none), n => variantStart depl n
  | .vector depl element, values, n =>
    afterItems (fun value m => element.after value m) values (contentStart n (arrayLengthWidth depl))
  | .map depl key mapped, entries, n =>
    afterItems (fun entry m => mapped.after entry.2 (key.after entry.1 m)) entries
      (contentStart n (mapLengthWidth depl))
  | .mapEmpty key mapped, entries, n =>
    afterItems (fun entry m => mapped.after entry.2 (key.after entry.1 m)) entries (contentStart n 4)

def DataTypes.afterFields : (types : DataTypes) → types.Values → ℕ → ℕ
  | .nil, _, n => n
  | .cons first rest, (value, values), n => rest.afterFields values (first.after value n)

def DataTypes.afterAlternative : (types : DataTypes) → types.Alternative → ℕ → ℕ
  | .cons first _, .inl value, n => first.after value n
  | .cons _ rest, .inr alternative, n => rest.afterAlternative alternative n

end

section Items
variable {α : Type} (after : α → ℕ → ℕ)

def EachItem (condition : α → ℕ → Prop) : List α → ℕ → Prop
  | [], _ => True
  | item :: rest, n => condition item n ∧ EachItem condition rest (after item n)

def LastItemCompletes : List α → ℕ → Prop
  | [], _ => True
  | [item], n => n / 8 < after item n / 8
  | item :: next :: rest, n => LastItemCompletes (next :: rest) (after item n)

end Items

def LengthWidth (width : ℕ) : Prop := width = 0 ∨ IsWidth width

def FieldSurvives (size count : ℕ) (le isSigned : Bool) (value : BitVec (8 * size)) : Prop :=
  Representable size count isSigned value ∧ Survives size count le isSigned value

def IntegerSurvives (le : Bool) (type : IntegerType) (depl : Option (IntegerDeployment type.size))
    (value : BitVec (8 * type.size)) : Prop :=
  0 < type.size ∧ ∀ d ∈ depl, FieldSurvives type.size (clampBits type.size d.bits) le type.isSigned value

mutual

/-- The value comes back from bit position `n` of a stream of this byte order. -/
def DataType.Sendable (le : Bool) : (type : DataType) → type.Value → ℕ → Prop
  | .bool, value, _ => value = true → le = false
  | .integer type depl, value, _ => IntegerSurvives le type depl value
  | .rangedInteger _ _ depl, value, _ => IntegerSurvives le int32 depl value
  | .float, _, n => n % 8 = 0
  | .double, _, n => n % 8 = 0
  | .version, _, _ => True
  | .enumerationEmpty base, _, _ => 0 < base.size
  | .enumeration base depl, value, _ =>
    0 < base.size ∧ Deployable base depl value ∧ Held base depl le value
  | .string depl, value, _ => LengthWidth (stringLengthWidth depl) ∧ Transmissible depl value
  | .byteBuffer depl, value, _ =>
    value.length < 2 ^ 32 ∧ cut (byteBufferMaxLength depl) value.length = value.length
  | .byteVector depl, _, _ => LengthWidth (arrayLengthWidth depl)
  | .structEmpty fields, values, n => fields.SendableFields le values (toByte n)
  | .struct depl fields, values, n =>
    LengthWidth (structLengthWidth depl) ∧
      fields.SendableFields le values (contentStart n (structLengthWidth depl))
  | .variant depl alternatives, (valueType, some alternative), n =>
    alternatives.length ≤ 255 ∧ valueType = alternatives.number alternative ∧
      LengthWidth (InputStream.lengthWidth depl) ∧ IsWidth (InputStream.typeWidth depl) ∧
      alternatives.SendableAlternative le alternative (variantStart depl n) ∧
      (InputStream.lengthWidth depl = 0 →
        alternatives.afterAlternative alternative (variantStart depl n) / 8 =
          variantStart depl n / 8 + unionMaxLength depl)
  | .variant _ _, (_, none), _ => False
  | .vector depl element, values, n =>
    LengthWidth (arrayLengthWidth depl) ∧
      EachItem (fun value m => element.after value m) (fun value m => element.Sendable le value m) values
        (contentStart n (arrayLengthWidth depl)) ∧
      (arrayLengthWidth depl ≠ 0 →
        LastItemCompletes (fun value m => element.after value m) values
          (contentStart n (arrayLengthWidth depl)))
  | .map depl key mapped, entries, n =>
    LengthWidth (mapLengthWidth depl) ∧ (entries.map Prod.fst).Nodup ∧
      EachItem (fun entry m => mapped.after entry.2 (key.after entry.1 m))
        (fun entry m => key.Sendable le entry.1 m ∧ mapped.Sendable le entry.2 (key.after entry.1 m))
        entries (contentStart n (mapLengthWidth depl)) ∧
      (mapLengthWidth depl ≠ 0 →
        LastItemCompletes (fun entry m => mapped.after entry.2 (key.after entry.1 m)) entries
          (contentStart n (mapLengthWidth depl)))
  | .mapEmpty key mapped, entries, n =>
    (entries.map Prod.fst).Nodup ∧
      EachItem (fun entry m => mapped.after entry.2 (key.after entry.1 m))
        (fun entry m => key.Sendable le entry.1 m ∧ mapped.Sendable le entry.2 (key.after entry.1 m))
        entries (contentStart n 4) ∧
      LastItemCompletes (fun entry m => mapped.after entry.2 (key.after entry.1 m)) entries
        (contentStart n 4)

def DataTypes.SendableFields (le : Bool) : (types : DataTypes) → types.Values → ℕ → Prop
  | .nil, _, _ => True
  | .cons first rest, (value, values), n =>
    first.Sendable le value n ∧ rest.SendableFields le values (first.after value n)

def DataTypes.SendableAlternative (le : Bool) : (types : DataTypes) → types.Alternative → ℕ → Prop
  | .cons first _, .inl value, n => first.Sendable le value n
  | .cons _ rest, .inr alternative, n => rest.SendableAlternative le alternative n

end

mutual

def DataType.longest : (type : DataType) → type.Value → ℕ
  | .structEmpty fields, values => fields.longestField values
  | .struct _ fields, values => fields.longestField values
  | .variant _ alternatives, (_, some alternative) => alternatives.longestAlternative alternative
  | .vector _ element, values =>
    max values.length ((values.map fun value => element.longest value).foldr max 0)
  | .map _ key mapped, entries =>
    max entries.length
      ((entries.map fun entry => max (key.longest entry.1) (mapped.longest entry.2)).foldr max 0)
  | .mapEmpty key mapped, entries =>
    max entries.length
      ((entries.map fun entry => max (key.longest entry.1) (mapped.longest entry.2)).foldr max 0)
  | _, _ => 0

def DataTypes.longestField : (types : DataTypes) → types.Values → ℕ
  | .nil, _ => 0
  | .cons first rest, (value, values) => max (first.longest value) (rest.longestField values)

def DataTypes.longestAlternative : (types : DataTypes) → types.Alternative → ℕ
  | .cons first _, .inl value => first.longest value
  | .cons _ rest, .inr alternative => rest.longestAlternative alternative

end

end SomeIPRuntime.TypedValues
