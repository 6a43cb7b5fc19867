import SomeIPRuntime.InputStream
import SomeIPRuntime.StringEncoder

set_option autoImplicit false

/-!
# InputStream: the readValue overloads

An overload for a template type is applied to the readers of its constituents,
which already hold their deployments. The result is what the out parameter is
set to; `none` where it keeps its former value, which a few overloads take as
an argument instead. Loops get the number of iterations they may make as `fuel`.
-/
namespace SomeIPRuntime.InputStream
open Bits ProgramRuns Deployment StringEncoder

def readBool : Read Bool :=
  assignBits 1 8 false (fun itsValue => itsValue &&& 0x1 == 0x1) none

def readInteger (type : IntegerType) (depl : Option (IntegerDeployment type.size)) :
    Read (BitVec (8 * type.size)) :=
  assignBits type.size ((depl.map (·.bits)).getD (8 * type.size)) type.isSigned id
    (depl.bind (·.invalid))

def readInt8 := readInteger int8
def readInt16 := readInteger int16
def readInt32 := readInteger int32
def readInt64 := readInteger int64
def readUInt8 := readInteger uint8
def readUInt16 := readInteger uint16
def readUInt32 := readInteger uint32
def readUInt64 := readInteger uint64

def readFloat : Read (BitVec 32) := do
  bitAlign
  assignBits 4 32 false id none

def readDouble : Read (BitVec 64) := do
  bitAlign
  assignBits 8 64 false id none

/-- `RangedInteger<minimum, maximum>`, with or without an `IntegerDeployment<int>`. -/
def readRangedInteger (minimum maximum : ℤ) (depl : Option (IntegerDeployment 4)) :
    Read (Option (BitVec 32)) := do
  let tempValue : BitVec 32 ← readInt32 depl
  if tempValue.toInt < minimum ∨ tempValue.toInt > maximum then
    raise
  if ← hasError then pure none else pure (some tempValue)

/-- `Enumeration<Base_>` with an `EmptyDeployment`, or with a deployment pointer. -/
def readEnumeration (base : IntegerType) (depl : Option (EnumerationDeployment base.size)) :
    Read (BitVec (8 * base.size)) :=
  match depl with
  | some depl =>
    match depl.bits >>> 3 with
    | 1 => assignBits 1 depl.bits depl.isSigned (·.setWidth _) depl.invalid
    | 2 => assignBits 2 depl.bits depl.isSigned (·.setWidth _) depl.invalid
    | _ => assignBits base.size depl.bits depl.isSigned id depl.invalid
  | none => readInteger base none

/-- The overload for the width of a length or type field; `value` is what the
    variable holds before. -/
def readWidth (width : ℕ) (permitZeroWidth : Bool) (value : ℕ) : Read ℕ :=
  match width with
  | 0 => do
    if permitZeroWidth then
      pure 0
    else
      raise
      pure value
  | 1 => assignBits 1 8 false BitVec.toNat none
  | 2 => assignBits 2 16 false BitVec.toNat none
  | 4 => assignBits 4 32 false BitVec.toNat none
  | _ => do
    raise
    pure value

structure Version where
  major : BitVec 32
  minor : BitVec 32
  deriving DecidableEq, Repr

def readVersion : Read Version := do
  bitAlign
  let major ← ignoreBits 4 32 false
  let minor ← ignoreBits 4 32 false
  pure ⟨major, minor⟩

def scanTermination (data : List Byte) : ℕ → Except Halt ℕ
  | 0 => .ok 0
  | n + 1 => do
    if n + 1 > 1 then
      let last ← byteAt data n
      if last ≠ 0 then
        scanTermination data n
      else
        let previous ← byteAt data (n - 1)
        if previous ≠ 0 then scanTermination data n else pure (n + 1)
    else
      pure (n + 1)

def decodeUtf8 (data : List Byte) (itsSize : ℕ) : Except Halt (Bool × List Byte) := do
  let last ← byteAt data (itsSize - 1)
  pure (last ≠ 0, data.take (itsSize - 1))

def decodeUtf16 (data : List Byte) (itsSize : ℕ) (bigEndian : Bool) :
    Except Halt (Bool × List Byte) := do
  let itsSize ← scanTermination data itsSize
  if itsSize % 2 ≠ 0 then
    pure (true, [])
  else
    let (_, bytes) ← utf16To8 data bigEndian (itsSize - 2)
    if bytes.length ≠ 0 then
      pure (false, bytes.take (bytes.length - 1))
    else
      pure (true, [])

/-- The body of `readValue(std::string)` once the string has been read as raw data. -/
def decodeString (data : List Byte) (itsSize : ℕ) (encoding : StringEncoding) :
    Except Halt (Bool × List Byte) := do
  let (valid, data, itsSize) ← checkBom data itsSize encoding
  if valid then
    match encoding with
    | .utf8 => decodeUtf8 data itsSize
    | .utf16be => decodeUtf16 data itsSize true
    | .utf16le => decodeUtf16 data itsSize false
  else
    pure (true, [])

def readStringData (itsSize : ℕ) (encoding : StringEncoding) : Read (List Byte) := do
  let data ← readRaw itsSize
  let s ← get
  let (isError, value) ← fromExcept (decodeString (s.message.body.drop data) itsSize encoding)
  if isError then
    raise
  pure value

def readStringSize (depl : Option StringDeployment) : Read ℕ :=
  match depl with
  | some depl =>
    if depl.stringLengthWidth = 0 then pure depl.stringLength
    else readWidth depl.stringLengthWidth false 0
  | none => readWidth 4 false 0

/-- `value` is the string before, which is kept where the size is not accepted. -/
def readString (depl : Option StringDeployment) (value : List Byte) : Read (List Byte) := do
  bitAlign
  let itsSize ← readStringSize depl
  let s ← get
  if itsSize > s.remaining then
    raise
  if ← hasError then
    pure value
  else
    readStringData itsSize ((depl.map (·.stringEncoding)).getD .utf8)

def readByteCount (lengthWidth maxLength : ℕ) : Read ℕ :=
  if lengthWidth ≠ 0 then readWidth lengthWidth true 0 else pure maxLength

def readByteBuffer (depl : Option ByteBufferDeployment) : Read (List Byte) := do
  bitAlign
  let byteBufferMinLength := (depl.map (·.byteBufferMinLength)).getD 0
  let byteBufferMaxLength := (depl.map (·.byteBufferMaxLength)).getD 0xFFFFFFFF
  let byteBufferLengthWidth := (depl.map (·.byteBufferLengthWidth)).getD 4
  let itsSize ← readByteCount byteBufferLengthWidth byteBufferMaxLength
  let maxSize :=
    if 0 ≠ byteBufferMaxLength ∧ itsSize > byteBufferMaxLength then byteBufferMaxLength else itsSize
  let s ← get
  if (byteBufferLengthWidth ≠ 0 ∧ itsSize < byteBufferMinLength) ∨ itsSize > s.remaining then
    raise
  if ← hasError then
    pure []
  else
    let base ← readRaw itsSize
    dereferenceRange base maxSize

/-- The overload for an `EmptyDeployment`. `StructReader` reads the fields in order. -/
def readStructEmpty {α : Type} (fields : Read α) : Read (Option α) := do
  bitAlign
  if ← hasError then pure none else some <$> fields

def readStructFields {α : Type} (structLengthWidth itsSize : ℕ) (fields : Read α) :
    Read (Option α) := do
  let remainingBeforeRead := (← get).remaining
  let value ← fields
  if structLengthWidth ≠ 0 then
    let deserialized := wrapSub 64 remainingBeforeRead (← get).remaining
    if itsSize > deserialized then
      let _ ← readRaw (itsSize - deserialized)
  pure (some value)

def readStruct {α : Type} (depl : Option StructDeployment) (fields : Read α) :
    Read (Option α) := do
  bitAlign
  let structLengthWidth := (depl.map (·.structLengthWidth)).getD 0
  let itsSize ← readWidth structLengthWidth true 0
  if ← hasError then pure none else readStructFields structLengthWidth itsSize fields

/-- A polymorphic struct: the serial selects the struct that `create` makes, which then
    reads itself. -/
def readPolymorphicStruct {α : Type} (create : BitVec 32 → Read α) : Read (Option α) := do
  bitAlign
  let serial ← assignBits 4 32 false id none
  if ← hasError then pure none else some <$> create serial

/-- `InputStreamReadVisitor` reads the alternative with the number
    `getMaxValueType() - valueType_ + 1`, and nothing where there is none. -/
def visitAlternative {α : Type} (alternatives : List (Read α)) (valueType : ℕ) : Read (Option α) :=
  if valueType ≤ alternatives.length then
    match alternatives[alternatives.length - valueType]? with
    | some alternative => some <$> alternative
    | none => pure none
  else
    pure none

/-- The padding after the alternative, `none` where it is longer than announced. -/
def paddingCount (announced consumed : ℕ) : Option ℕ :=
  if announced < consumed then none else some (announced - consumed)

/-- The length and the type of a union, in either order. The variables are not initialised:
    `uninitialised` is what they hold. -/
def readUnionHeader (unionDefaultOrder : Bool) (unionLengthWidth unionTypeWidth : ℕ)
    (uninitialised : ℕ × ℕ) : Read (ℕ × ℕ) :=
  if unionDefaultOrder then do
    let itsSize ← readWidth unionLengthWidth true uninitialised.1
    let itsType ← readWidth unionTypeWidth false uninitialised.2
    pure (itsSize, itsType)
  else do
    let itsType ← readWidth unionTypeWidth false uninitialised.2
    let itsSize ← readWidth unionLengthWidth true uninitialised.1
    pure (itsSize, itsType)

def skipPadding (padding : Option ℕ) : Read Unit :=
  match padding with
  | none => raise
  | some paddingCount => do
    if !(← hasError) then
      let _ ← readRaw paddingCount

/-- `uint8_t((itsType > 255) ? 255 : uint8_t(getMaxValueType()) - itsType + 1)` -/
def valueTypeOf (maxValueType itsType : ℕ) : ℕ :=
  if itsType > 255 then 255 else (wrapSub 32 (maxValueType % 2 ^ 8) itsType + 1) % 2 ^ 8

def readAlternative {α : Type} (announced itsType : ℕ) (alternatives : List (Read α)) :
    Read (ℕ × Option α) := do
  let valueType := valueTypeOf alternatives.length itsType
  let remainingBeforeRead := (← get).remaining
  let value ← visitAlternative alternatives valueType
  let remainingCount := wrapSub 64 remainingBeforeRead (← get).remaining
  skipPadding (paddingCount announced remainingCount)
  pure (valueType, value)

def readVariant {α : Type} (uninitialised : ℕ × ℕ) (depl : Option VariantDeployment)
    (alternatives : List (Read α)) : Read (ℕ × Option α) := do
  bitAlign
  let unionDefaultOrder := (depl.map (·.unionDefaultOrder)).getD true
  let unionLengthWidth := (depl.map (·.unionLengthWidth)).getD 4
  let unionTypeWidth := (depl.map (·.unionTypeWidth)).getD 4
  let unionMaxLength := (depl.map (·.unionMaxLength)).getD 0
  let (itsSize, itsType) ←
    readUnionHeader unionDefaultOrder unionLengthWidth unionTypeWidth uninitialised
  if itsType = 0 then
    raise
  if ← hasError then
    pure (0, none)
  else
    readAlternative (if unionLengthWidth ≠ 0 then itsSize else unionMaxLength) itsType alternatives

def readByteVector (depl : Option ArrayDeployment) : Read (List Byte) := do
  bitAlign
  let arrayLengthWidth := (depl.map (·.arrayLengthWidth)).getD 4
  let arrayMinLength := (depl.map (·.arrayMinLength)).getD 0
  let arrayMaxLength := (depl.map (·.arrayMaxLength)).getD 0xFFFFFFFF
  let itsSize ← readByteCount arrayLengthWidth arrayMaxLength
  let s ← get
  if (arrayLengthWidth > 0 ∧
      (itsSize < arrayMinLength ∨ (arrayMaxLength ≠ 0 ∧ itsSize > arrayMaxLength))) ∨
      itsSize > s.remaining then
    raise
  if ← hasError then
    pure []
  else
    let base ← readRaw itsSize
    dereferenceRange base itsSize

/-- What the loops over elements share: `read` reads one element into the container,
    or gives `none` where it has left the error flag set. -/
def readElements {γ : Type} (lengthWidth maxLength : ℕ) (size : γ → ℕ)
    (read : γ → Read (Option γ)) : ℕ → ℕ → γ → Read (ℕ × γ)
  | 0, itsSize, value =>
    if itsSize > 0 ∨ (lengthWidth = 0 ∧ size value < maxLength) then
      throw .outOfFuel
    else
      pure (itsSize, value)
  | fuel + 1, itsSize, value => do
    if itsSize > 0 ∨ (lengthWidth = 0 ∧ size value < maxLength) then
      let remainingBeforeRead := (← get).remaining
      match ← read value with
      | none => pure (itsSize, value)
      | some value =>
        let consumed := wrapSub 64 remainingBeforeRead (← get).remaining
        readElements lengthWidth maxLength size read fuel
          (if lengthWidth ≠ 0 then wrapSub 32 itsSize consumed else itsSize) value
    else
      pure (itsSize, value)

def pushElement {α : Type} (element : Read α) (value : List α) : Read (Option (List α)) := do
  let itsElement ← element
  if ← hasError then pure none else pure (some (value ++ [itsElement]))

def insertEntry {κ ν : Type} [DecidableEq κ] (itsKey : κ) (itsValue : ν) (value : List (κ × ν)) :
    List (κ × ν) :=
  if itsKey ∈ value.map Prod.fst then value else value ++ [(itsKey, itsValue)]

def readEntry {κ ν : Type} [DecidableEq κ] (key : Read κ) (mapped : Read ν)
    (value : List (κ × ν)) : Read (Option (List (κ × ν))) := do
  let itsKey ← key
  if ← hasError then
    pure none
  else
    let itsValue ← mapped
    if ← hasError then pure none else pure (some (insertEntry itsKey itsValue value))

def checkLength (lengthWidth minLength maxLength itsSize size : ℕ) : Read Unit := do
  if lengthWidth ≠ 0 then
    if itsSize ≠ 0 then
      raise
    if minLength ≠ 0 ∧ size < minLength then
      raise
    if maxLength ≠ 0 ∧ size > maxLength then
      raise
  else if maxLength ≠ size then
    raise

def readVector {α : Type} (fuel : ℕ) (depl : Option ArrayDeployment) (element : Read α) :
    Read (List α) := do
  bitAlign
  let arrayLengthWidth := (depl.map (·.arrayLengthWidth)).getD 4
  let arrayMinLength := (depl.map (·.arrayMinLength)).getD 0
  let arrayMaxLength := (depl.map (·.arrayMaxLength)).getD 0xFFFFFFFF
  let itsSize ← readWidth arrayLengthWidth true 0
  if ← hasError then
    pure []
  else
    let (itsSize, value) ←
      readElements arrayLengthWidth arrayMaxLength List.length (pushElement element) fuel itsSize []
    checkLength arrayLengthWidth arrayMinLength arrayMaxLength itsSize value.length
    pure value

def readEntries {κ ν : Type} [DecidableEq κ] (fuel mapLengthWidth mapMaxLength itsSize : ℕ)
    (key : Read κ) (mapped : Read ν) : Read (ℕ × List (κ × ν)) := do
  if ← hasError then
    pure (itsSize, [])
  else
    readElements mapLengthWidth mapMaxLength List.length (readEntry key mapped) fuel itsSize []

def readMap {κ ν : Type} [DecidableEq κ] (fuel : ℕ) (depl : Option MapDeployment) (key : Read κ)
    (mapped : Read ν) : Read (List (κ × ν)) := do
  bitAlign
  let mapLengthWidth := (depl.map (·.mapLengthWidth)).getD 4
  let mapMinLength := (depl.map (·.mapMinLength)).getD 0
  let mapMaxLength := (depl.map (·.mapMaxLength)).getD 0xFFFFFFFF
  let itsSize ← readWidth mapLengthWidth true 0
  let (itsSize, value) ← readEntries fuel mapLengthWidth mapMaxLength itsSize key mapped
  checkLength mapLengthWidth mapMinLength mapMaxLength itsSize value.length
  pure value

/-- The overload for an `EmptyDeployment`: the error flag is not looked at before the loop. -/
def readMapEmpty {κ ν : Type} [DecidableEq κ] (fuel : ℕ) (key : Read κ) (mapped : Read ν) :
    Read (List (κ × ν)) := do
  bitAlign
  let itsSize ← assignBits 4 32 false BitVec.toNat none
  let (itsSize, value) ← readElements 4 0 List.length (readEntry key mapped) fuel itsSize []
  if itsSize ≠ 0 then
    raise
  pure value

/-- `SerializableArguments::deserialize`: whether all arguments were read, and those read. -/
def deserialize {α : Type} : List (Read α) → Read (Bool × List α)
  | [] => pure (true, [])
  | argument :: rest => do
    let value ← argument
    if ← hasError then
      pure (false, [value])
    else
      let (success, values) ← deserialize rest
      pure (success, value :: values)

end SomeIPRuntime.InputStream
