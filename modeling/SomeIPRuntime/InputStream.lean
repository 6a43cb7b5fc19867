import SomeIPRuntime.ProgramRuns
import SomeIPRuntime.Message

set_option autoImplicit false

/-!
# InputStream: the cursor and its primitive operations

`current_` is kept as the offset from `dataBegin_`, `remaining_` as a `size_t`
that wraps. The `history` of a stream, and the `failed` flag of a cursor, are not
in the source: they record the primitive steps made so far, each with the cursor
it started from, and whether some read has failed.
-/
namespace SomeIPRuntime.InputStream
open Bits ProgramRuns

inductive Step
  /-- `_readBitValue` of this many bits -/
  | readBits (bits : ℕ)
  /-- `_readRaw` of this many bytes -/
  | readRaw (size : ℕ)
  | bitAlign
  /-- `errorOccurred_ = _readBitValue(..)`, with or without a declared invalid value -/
  | assign (bits : ℕ) (hasInvalid : Bool)
  /-- a `_readBitValue` whose result is dropped -/
  | ignore (bits : ℕ)
  /-- `errorOccurred_ = true` -/
  | raise
  deriving DecidableEq, Repr

structure Cursor where
  current : ℕ
  currentBit : ℕ
  remaining : ℕ
  errorOccurred : Bool
  failed : Bool
  deriving DecidableEq, Repr

structure Event where
  step : Step
  before : Cursor
  deriving DecidableEq, Repr

end InputStream

structure InputStream extends InputStream.Cursor where
  message : Message
  isLittleEndian : Bool
  history : List InputStream.Event

namespace InputStream
open Bits ProgramRuns

abbrev Read (α : Type) := EStateM Halt InputStream α

def create (message : Message) (isLittleEndian : Bool) : InputStream where
  current := 0
  currentBit := 0
  remaining := message.body.length
  errorOccurred := false
  failed := false
  message := message
  isLittleEndian := isLittleEndian
  history := []

def record (step : Step) : Read Unit :=
  modify fun s => { s with history := ⟨step, s.toCursor⟩ :: s.history }

def hasError : Read Bool := do
  let s ← get
  pure s.errorOccurred

def raise : Read Unit := do
  record .raise
  modify fun s => { s with errorOccurred := true, failed := true }

/-- `*address`, for an address given as the offset from `dataBegin_`. -/
def dereference (address : ℕ) : Read Byte := fun s =>
  match s.message.body[address]? with
  | some b => .ok b s
  | none => .error .outOfBounds s

def dereferenceRange (address : ℕ) : ℕ → Read (List Byte)
  | 0 => pure []
  | size + 1 => do
    let b ← dereference address
    let bs ← dereferenceRange (address + 1) size
    pure (b :: bs)

def bitAlign : Read Unit := do
  record .bitAlign
  modify fun s =>
    if s.currentBit > 0 then
      { s with current := s.current + 1, remaining := wrapSub 64 s.remaining 1, currentBit := 0 }
    else s

def readRaw (size : ℕ) : Read ℕ := do
  record (.readRaw size)
  let s ← get
  if size > s.remaining then
    raise
  modify fun s =>
    { s with remaining := if size ≥ s.remaining then 0 else s.remaining - size }
  modify fun s => { s with current := s.current + size }
  pure s.current

/-- `numCopy` bits of `b` from bit `source` on, moved to bit `target`. -/
def moveBits (b : Byte) (numCopy source target : ℕ) : Byte :=
  let itsMask : Byte := (0xFF#8 >>> (8 - numCopy)) <<< source
  let itsValue := b &&& itsMask
  if target < source then itsValue >>> (source - target) else itsValue <<< (target - source)

/-- The number of loop iterations that bring `numberOfBits` down to at most zero. -/
def highestByte : ℕ → ℕ → ℕ
  | 0, _ => 0
  | fuel + 1, numberOfBits =>
    if numberOfBits > 0 then highestByte fuel (numberOfBits - 8) + 1 else 0

def signMask (numberOfBits currentBit bits : ℕ) : Byte :=
  1#8 <<< (if numberOfBits > 0 then (numberOfBits - 1) % 8 else (currentBit + bits - 1) % 8)

/-- The sign bit, in the byte that holds the last bit of the field. `sizeof(Type_)`
    is at most 8, so `numberOfBits` never leaves the range of an `int8_t`. -/
def isNegative (bits : ℕ) (isSigned : Bool) : Read Bool := do
  if isSigned then
    let s ← get
    let numberOfBits := bits - (8 - s.currentBit)
    let b ← dereference (s.current + highestByte bits numberOfBits)
    pure (b &&& signMask numberOfBits s.currentBit bits != 0)
  else
    pure false

/-- The local variables of the copying loop. `written` counts the bytes of `raw_`
    that `target` has moved over. -/
structure CopyState where
  raw : List Byte
  written : ℕ
  writePosition : ℕ
  itsCurrentByte : Byte
  itsCurrentCount : ℕ
  deriving DecidableEq, Repr

def CopyState.store (t : CopyState) (size : ℕ) (isLittleEndian isNegative : Bool) : List Byte :=
  let target := if isLittleEndian then t.written else size - 1 - t.written
  t.raw.modify target fun b => if isNegative then b &&& t.itsCurrentByte else b ||| t.itsCurrentByte

def advance (numCopy : ℕ) (s : InputStream) : InputStream :=
  if s.currentBit + numCopy = 8 then
    { s with current := s.current + 1, currentBit := 0, remaining := wrapSub 64 s.remaining 1 }
  else
    { s with currentBit := s.currentBit + numCopy }

def numCopy (currentBit writePosition bits : ℕ) : ℕ :=
  let maxRead := 8 - currentBit
  let maxWrite := if 8 - writePosition > bits then bits else 8 - writePosition
  if maxRead < maxWrite then maxRead else maxWrite

/-- One round of the loop body up to the update of `writePosition`. -/
def copyStep (bits : ℕ) (t : CopyState) : Read (ℕ × CopyState) := do
  let s ← get
  let numCopy := numCopy s.currentBit t.writePosition bits
  let b ← dereference s.current
  let itsValue := moveBits b numCopy s.currentBit t.writePosition
  set (advance numCopy s)
  pure (bits - numCopy,
    { t with
      itsCurrentByte := t.itsCurrentByte ||| itsValue
      itsCurrentCount :=
        if s.currentBit + numCopy = 8 then t.itsCurrentCount + 1 else t.itsCurrentCount
      writePosition := t.writePosition + numCopy })

/-- Every round copies at least one bit, so `bits` rounds are enough. -/
def copyLoop (size : ℕ) (isNegative : Bool) (itsSignedInitializer : Byte) :
    ℕ → ℕ → CopyState → Read (List Byte)
  | 0, _, t => pure t.raw
  | fuel + 1, bits, t => do
    if bits > 0 then
      let (bits, t) ← copyStep bits t
      let s ← get
      if t.writePosition = 8 ∨ bits = 0 then
        copyLoop size isNegative itsSignedInitializer fuel bits
          { t with
            raw := t.store size s.isLittleEndian isNegative
            written := t.written + 1
            writePosition := 0
            itsCurrentByte :=
              if isNegative && t.itsCurrentCount == size then itsSignedInitializer else 0 }
      else
        copyLoop size isNegative itsSignedInitializer fuel bits t
    else
      pure t.raw

def copyBytes (size : ℕ) : Read (List Byte) := do
  let s ← get
  let bytes ← dereferenceRange s.current size
  set { s with current := s.current + size, remaining := wrapSub 64 s.remaining size }
  pure (if s.isLittleEndian then bytes else bytes.reverse)

/-- `_readBitValue` from the sanity check of `_bits` on. `current_` is not NULL where
    `remaining_` is positive. -/
def readField (size bits : ℕ) (isSigned : Bool) : Read (Bool × BitVec (8 * size)) := do
  record (.readBits bits)
  let s ← get
  if bits = 0 ∨ s.remaining < ((bits - 1) >>> 3) + 1 then
    pure (true, 0)
  else if s.currentBit = 0 ∧ bits = size <<< 3 then
    let raw ← copyBytes size
    pure (false, typed size raw)
  else
    let isNegative ← isNegative bits isSigned
    let itsSignedInitializer : Byte := 0xFF#8 <<< ((bits - 1) % 8)
    let raw ← copyLoop size isNegative itsSignedInitializer bits bits
      { raw := List.replicate size (if isNegative then 0xFF else 0)
        written := 0
        writePosition := 0
        itsCurrentByte := if isNegative && size == 1 then itsSignedInitializer else 0
        itsCurrentCount := 1 }
    pure (false, typed size raw)

def readBitValue (size bits : ℕ) (isSigned : Bool) : Read (Bool × BitVec (8 * size)) :=
  readField size (clampBits size bits) isSigned

/-- `errorOccurred_ = _readBitValue(..)`, and the declared invalid value in place
    of a value that could not be read. -/
def assignBits {β : Type} (size bits : ℕ) (isSigned : Bool) (cast : BitVec (8 * size) → β)
    (invalid : Option β) : Read β := do
  record (.assign (clampBits size bits) invalid.isSome)
  let (isError, value) ← readBitValue size bits isSigned
  match isError, invalid with
  | true, some invalid =>
    modify fun s => { s with errorOccurred := false }
    pure invalid
  | _, _ =>
    modify fun s => { s with errorOccurred := isError, failed := s.failed || isError }
    pure (cast value)

def ignoreBits (size bits : ℕ) (isSigned : Bool) : Read (BitVec (8 * size)) := do
  record (.ignore (clampBits size bits))
  let (isError, value) ← readBitValue size bits isSigned
  modify fun s => { s with failed := s.failed || isError }
  pure value

end SomeIPRuntime.InputStream
