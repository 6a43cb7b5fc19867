import SomeIPRuntime.OutputStream
import SomeIPRuntime.StringEncoder

set_option autoImplicit false

/-!
# OutputStream: the writeValue overloads

An overload for a template type is applied to the writers of its constituents,
which already hold their deployments and, for the content of a struct or a
variant, the value.
-/
namespace SomeIPRuntime.OutputStream
open Bits ProgramRuns Deployment StringEncoder

def writeBool (value : Bool) : Write Unit := writeBitValue 4 (if value then 0x1 else 0x0) 8 false

def writeInteger (type : IntegerType) (depl : Option (IntegerDeployment type.size))
    (value : BitVec (8 * type.size)) : Write Unit :=
  writeBitValue type.size value ((depl.map (·.bits)).getD (8 * type.size)) type.isSigned

def writeInt8 := writeInteger int8
def writeInt16 := writeInteger int16
def writeInt32 := writeInteger int32
def writeInt64 := writeInteger int64
def writeUInt8 := writeInteger uint8
def writeUInt16 := writeInteger uint16
def writeUInt32 := writeInteger uint32
def writeUInt64 := writeInteger uint64

def writeFloat (value : BitVec 32) : Write Unit := writeBitValue 4 value 32 false

def writeDouble (value : BitVec 64) : Write Unit := writeBitValue 8 value 64 false

/-- `RangedInteger<minimum, maximum>`, with or without an `IntegerDeployment<int>`. -/
def writeRangedInteger (minimum maximum : ℤ) (depl : Option (IntegerDeployment 4))
    (value : BitVec 32) : Write Unit :=
  if minimum ≤ value.toInt ∧ value.toInt ≤ maximum then writeInt32 depl value else raise

def writeEnumerationEmpty (base : IntegerType) (value : BitVec (8 * base.size)) : Write Unit :=
  writeInteger base none value

/-- `static_cast` from the backing type to an unsigned one of `width` bits. -/
def staticCast (base : IntegerType) (width : ℕ) (value : BitVec (8 * base.size)) : BitVec width :=
  if base.isSigned then value.signExtend width else value.setWidth width

theorem staticCast_narrow {base : IntegerType} {width : ℕ} (value : BitVec (8 * base.size))
    (hwidth : width ≤ 8 * base.size) : staticCast base width value = value.setWidth width := by
  unfold staticCast
  split
  · exact BitVec.signExtend_eq_setWidth_of_le value hwidth
  · rfl

def writeEnumeration (base : IntegerType) (depl : Option (EnumerationDeployment base.size))
    (value : BitVec (8 * base.size)) : Write Unit :=
  match depl with
  | some depl =>
    match depl.bits >>> 3 with
    | 1 => writeBitValue 1 (staticCast base 8 value) depl.bits depl.isSigned
    | 2 => writeBitValue 2 (staticCast base 16 value) depl.bits depl.isSigned
    | _ => writeBitValue base.size value depl.bits depl.isSigned
  | none => writeUInt8 none (staticCast base 8 value)

def writeVersion (major minor : BitVec 32) : Write Unit := do
  bitAlign
  writeBitValue 4 major 32 false
  writeBitValue 4 minor 32 false

/-- The content of a string in its encoding; `c_str()` points to the value and a NUL. -/
def encodeString (encoding : StringEncoding) (value : List Byte) : Except Halt (List Byte) :=
  match encoding with
  | .utf16be => Prod.snd <$> utf8To16 (value ++ [0]) true
  | .utf16le => Prod.snd <$> utf8To16 (value ++ [0]) false
  | .utf8 => pure value

def writeBom (encoding : StringEncoding) : Write Unit := writeRaw (bom encoding)

def writeStringData (encoding : StringEncoding) (bytes : List Byte) (terminationSize : ℕ) :
    Write Unit := do
  writeBom encoding
  writeRaw bytes
  writeRawFill 0x00 terminationSize

def writeStringBytes (lengthWidth stringLength : ℕ) (encoding : StringEncoding) (bytes : List Byte) :
    Write Unit :=
  let bomSize := if encoding = .utf8 then 3 else 2
  let terminationSize := if encoding = .utf8 then 1 else 2
  let stringSize := bytes.length + terminationSize + bomSize
  if lengthWidth = 0 then
    if stringLength < stringSize then
      pure ()
    else
      writeStringData encoding bytes (terminationSize + (stringLength - stringSize))
  else do
    writeWidth (stringSize % 2 ^ 32) lengthWidth
    writeStringData encoding bytes terminationSize

def writeString (depl : Option StringDeployment) (value : List Byte) : Write Unit := do
  bitAlign
  let encoding := (depl.map (·.stringEncoding)).getD .utf8
  let bytes ← fromExcept (encodeString encoding value)
  writeStringBytes ((depl.map (·.stringLengthWidth)).getD 4)
    ((depl.map (·.stringLength)).getD 0) encoding bytes

def unlessError (x : Write Unit) : Write Unit := do
  if ← hasError then pure () else x

def writeByteCount (lengthWidth maxSize : ℕ) : Write Unit :=
  match lengthWidth with
  | 0 => pure ()
  | 1 => if maxSize > 255 then raise else writeWidth maxSize 1
  | 2 => if maxSize > 65535 then raise else writeWidth maxSize 2
  | 4 => writeWidth maxSize 4
  | _ => raise

def writeByteBuffer (depl : Option ByteBufferDeployment) (value : List Byte) : Write Unit := do
  bitAlign
  let byteBufferMinLength := (depl.map (·.byteBufferMinLength)).getD 0
  let byteBufferMaxLength := (depl.map (·.byteBufferMaxLength)).getD 0xFFFFFFFF
  let byteBufferLengthWidth := (depl.map (·.byteBufferLengthWidth)).getD 4
  let maxSize :=
    if byteBufferLengthWidth ≠ 0 ∧ byteBufferMaxLength > 0 ∧ byteBufferMaxLength < value.length then
      byteBufferMaxLength
    else
      value.length % 2 ^ 32
  if (byteBufferLengthWidth = 0 ∧ byteBufferMaxLength ≠ maxSize) ∨
      (byteBufferLengthWidth ≠ 0 ∧ maxSize < byteBufferMinLength) then
    raise
  unlessError (writeByteCount byteBufferLengthWidth maxSize)
  unlessError (writeRaw (value.take maxSize))

def writeStructEmpty (fields : Write Unit) : Write Unit := do
  bitAlign
  unlessError fields

def openLength (width : ℕ) : Write Unit := if width ≠ 0 then openContent width else pure ()

def closeLength (width : ℕ) : Write Unit := if width ≠ 0 then closeContent width else pure ()

def writeStruct (depl : Option StructDeployment) (fields : Write Unit) : Write Unit := do
  bitAlign
  let structLengthWidth := (depl.map (·.structLengthWidth)).getD 0
  openLength structLengthWidth
  unlessError fields
  closeLength structLengthWidth

/-- A polymorphic struct, by its serial and what it writes itself; `none` is a null pointer. -/
def writePolymorphicStruct (value : Option (BitVec 32 × Write Unit)) : Write Unit := do
  bitAlign
  match value with
  | some (serial, fields) =>
    writeBitValue 4 serial 32 false
    unlessError fields
  | none => pure ()

/-- `uint8_t(getMaxValueType()) - getValueType() + 1`, as a `uint32_t`. -/
def typeOf (maxValueType valueType : ℕ) : ℕ :=
  (wrapSub 32 (maxValueType % 2 ^ 8) valueType + 1) % 2 ^ 32

def writeUnionHeader (unionDefaultOrder : Bool) (unionLengthWidth unionTypeWidth itsType : ℕ) :
    Write Unit :=
  if unionDefaultOrder then do
    pushPosition
    writeWidth 0 unionLengthWidth
    writeWidth itsType unionTypeWidth
    pushPosition
  else do
    writeWidth itsType unionTypeWidth
    openContent unionLengthWidth

/-- `_writeValue('\0', 8)`, as often as there are bytes to be filled. -/
def writePadding : ℕ → Write Unit
  | 0 => pure ()
  | paddingCount + 1 => do
    writeWidth 0 8
    writePadding paddingCount

def closeUnion (unionLengthWidth unionMaxLength : ℕ) : Write Unit := do
  let (length, position) ← takePositions unionLengthWidth
  if unionLengthWidth ≠ 0 then
    writeValueAt (length % 2 ^ 32) unionLengthWidth (position % 2 ^ 32)
  else if unionMaxLength < length then
    raise
  else
    writePadding (unionMaxLength - length)

/-- `content` writes the active alternative, which is selected by `valueType`. -/
def writeVariant (depl : Option VariantDeployment) (maxValueType valueType : ℕ)
    (content : Write Unit) : Write Unit := do
  bitAlign
  let unionDefaultOrder := (depl.map (·.unionDefaultOrder)).getD true
  let unionLengthWidth := (depl.map (·.unionLengthWidth)).getD 4
  let unionTypeWidth := (depl.map (·.unionTypeWidth)).getD 4
  let unionMaxLength := (depl.map (·.unionMaxLength)).getD 0
  writeUnionHeader unionDefaultOrder unionLengthWidth unionTypeWidth (typeOf maxValueType valueType)
  unlessError content
  closeUnion unionLengthWidth unionMaxLength

def checkSize (lengthWidth minLength maxLength size : ℕ) : Write Unit := do
  if lengthWidth ≠ 0 then
    if minLength ≠ 0 ∧ size < minLength then
      raise
    if maxLength ≠ 0 ∧ size > maxLength then
      raise
  else if maxLength ≠ size then
    raise

def writeByteVector (depl : Option ArrayDeployment) (value : List Byte) : Write Unit := do
  bitAlign
  let arrayLengthWidth := (depl.map (·.arrayLengthWidth)).getD 4
  let arrayMinLength := (depl.map (·.arrayMinLength)).getD 0
  let arrayMaxLength := (depl.map (·.arrayMaxLength)).getD 0xFFFFFFFF
  checkSize arrayLengthWidth arrayMinLength arrayMaxLength value.length
  unlessError do
    let position ← getPosition
    writeWidth (value.length % 2 ^ 32) arrayLengthWidth
    let start ← getPosition
    writeRaw value
    record (.patched ⟨position, arrayLengthWidth, start, start + value.length, 0⟩)

def writeElements {α : Type} (element : α → Write Unit) : List α → Write Unit
  | [] => pure ()
  | a :: rest => do
    element a
    unlessError (writeElements element rest)

def writeArrayContent {α : Type} (lengthWidth minLength maxLength : ℕ) (element : α → Write Unit)
    (value : List α) : Write Unit := do
  checkSize lengthWidth minLength maxLength value.length
  unlessError (writeElements element value)

def writeVector {α : Type} (depl : Option ArrayDeployment) (element : α → Write Unit)
    (value : List α) : Write Unit := do
  bitAlign
  let arrayLengthWidth := (depl.map (·.arrayLengthWidth)).getD 4
  let arrayMinLength := (depl.map (·.arrayMinLength)).getD 0
  let arrayMaxLength := (depl.map (·.arrayMaxLength)).getD 0xFFFFFFFF
  openLength arrayLengthWidth
  writeArrayContent arrayLengthWidth arrayMinLength arrayMaxLength element value
  closeLength arrayLengthWidth

/-- The entries in the order in which the map is iterated; `false` where an error has ended
    the writing. -/
def writeEntries {κ ν : Type} (key : κ → Write Unit) (mapped : ν → Write Unit) :
    List (κ × ν) → Write Bool
  | [] => pure true
  | (k, v) :: rest => do
    key k
    if ← hasError then
      pure false
    else
      mapped v
      if ← hasError then pure false else writeEntries key mapped rest

def writeMapContent {κ ν : Type} (lengthWidth minLength maxLength : ℕ) (key : κ → Write Unit)
    (mapped : ν → Write Unit) (value : List (κ × ν)) : Write Bool := do
  checkSize lengthWidth minLength maxLength value.length
  writeEntries key mapped value

def closeMap (lengthWidth : ℕ) (completed : Bool) : Write Unit :=
  if completed then closeLength lengthWidth
  else if lengthWidth ≠ 0 then record .abandoned
  else pure ()

def writeMap {κ ν : Type} (depl : Option MapDeployment) (key : κ → Write Unit)
    (mapped : ν → Write Unit) (value : List (κ × ν)) : Write Unit := do
  bitAlign
  let mapLengthWidth := (depl.map (·.mapLengthWidth)).getD 4
  let mapMinLength := (depl.map (·.mapMinLength)).getD 0
  let mapMaxLength := (depl.map (·.mapMaxLength)).getD 0xFFFFFFFF
  openLength mapLengthWidth
  let completed ← writeMapContent mapLengthWidth mapMinLength mapMaxLength key mapped value
  closeMap mapLengthWidth completed

def closeMapEmpty (completed : Bool) : Write Unit :=
  if completed then do
    let (length, position) ← takePositions 4
    writeTypedAt 4 (BitVec.ofNat 32 length) position
  else
    record .abandoned

def writeMapEmpty {κ ν : Type} (key : κ → Write Unit) (mapped : ν → Write Unit)
    (value : List (κ × ν)) : Write Unit := do
  bitAlign
  openContent 4
  let completed ← writeEntries key mapped value
  closeMapEmpty completed

/-- `SerializableArguments::serialize` -/
def serialize : List (Write Unit) → Write Bool
  | [] => pure true
  | argument :: rest => do
    argument
    if ← hasError then pure false else serialize rest

end SomeIPRuntime.OutputStream
