import SomeIPRuntime.ProgramRuns
import SomeIPRuntime.Message

set_option autoImplicit false

/-!
# OutputStream: the payload and its primitive operations

`positions_` is kept with its back first. The `history` of a stream is not in the
source: it records the length fields of the containers that have been written, and
the maps that have been left without writing theirs.
-/
namespace SomeIPRuntime.OutputStream
open Bits ProgramRuns

/-- A length field of `width` bytes at `position` for the content from `start` on: it was
    written when the payload had `stop` bytes and `pending` bits were in the current byte. -/
structure Patch where
  position : ℕ
  width : ℕ
  start : ℕ
  stop : ℕ
  pending : ℕ
  deriving DecidableEq, Repr

inductive Event
  | patched (patch : Patch)
  /-- a map that pushed its positions and returned before it popped them -/
  | abandoned
  deriving DecidableEq, Repr

end OutputStream

structure OutputStream where
  payload : List Bits.Byte
  errorOccurred : Bool
  positions : List ℕ
  currentByte : Bits.Byte
  currentBit : ℕ
  isLittleEndian : Bool
  history : List OutputStream.Event
  deriving DecidableEq, Repr

namespace OutputStream
open Bits ProgramRuns

abbrev Write (α : Type) := EStateM Halt OutputStream α

def create (isLittleEndian : Bool) : OutputStream where
  payload := []
  errorOccurred := false
  positions := []
  currentByte := 0
  currentBit := 0
  isLittleEndian := isLittleEndian
  history := []

def record (event : Event) : Write Unit := modify fun o => { o with history := event :: o.history }

def hasError : Write Bool := do
  let o ← get
  pure o.errorOccurred

def raise : Write Unit := modify fun o => { o with errorOccurred := true }

def getPosition : Write ℕ := do
  let o ← get
  pure o.payload.length

def pushPosition : Write Unit :=
  modify fun o => { o with positions := o.payload.length :: o.positions }

def popPosition : Write ℕ := fun o =>
  match o.positions with
  | itsPosition :: rest => .ok itsPosition { o with positions := rest }
  | [] => .error .outOfBounds o

def writeRaw (data : List Byte) : Write Unit := modify fun o => { o with payload := o.payload ++ data }

def writeRawFill (data : Byte) (size : ℕ) : Write Unit := writeRaw (List.replicate size data)

def writeRawAt (data : List Byte) (position : ℕ) : Write Unit :=
  modify fun o =>
    { o with
      payload := o.payload.take position ++ data ++ o.payload.drop (position + data.length) }

def reorder (isLittleEndian : Bool) (raw : List Byte) : List Byte :=
  if isLittleEndian then raw else raw.reverse

def bitAlign : Write Unit :=
  modify fun o =>
    if o.currentBit ≠ 0 then
      { o with payload := o.payload ++ [o.currentByte], currentByte := 0, currentBit := 0 }
    else o

/-- `numCopy` bits of `b` from bit `readPosition` on, moved to bit `currentBit`. -/
def placeBits (b : Byte) (numCopy readPosition currentBit : ℕ) : Byte :=
  let itsMask : Byte := (0xFF#8 >>> (8 - numCopy)) <<< readPosition
  let itsValue := b &&& itsMask
  if currentBit > readPosition then itsValue <<< (currentBit - readPosition)
  else itsValue >>> (readPosition - currentBit)

def putBits (itsValue : Byte) (numCopy : ℕ) (o : OutputStream) : OutputStream :=
  if o.currentBit + numCopy = 8 then
    { o with
      payload := o.payload ++ [o.currentByte ||| itsValue]
      currentByte := 0
      currentBit := 0 }
  else
    { o with
      currentByte := o.currentByte ||| itsValue
      currentBit := o.currentBit + numCopy }

def numCopy (bits readPosition currentBit : ℕ) : ℕ :=
  let maxRead := if bits < 8 - readPosition then bits else 8 - readPosition
  let maxWrite := 8 - currentBit
  if maxRead < maxWrite then maxRead else maxWrite

/-- `source` are the bytes that the source pointer comes to, from the one it points to.
    Every round copies at least one bit, so `bits` rounds are enough. -/
def copyLoop : ℕ → ℕ → ℕ → List Byte → Write Unit
  | 0, _, _, _ => pure ()
  | fuel + 1, bits, readPosition, source => do
    if bits > 0 then
      let o ← get
      let numCopy := numCopy bits readPosition o.currentBit
      match source with
      | [] => throw .outOfBounds
      | b :: rest =>
        modify (putBits (placeBits b numCopy readPosition o.currentBit) numCopy)
        if readPosition + numCopy = 8 then
          copyLoop fuel (bits - numCopy) 0 rest
        else
          copyLoop fuel (bits - numCopy) (readPosition + numCopy) source
    else
      pure ()

def sourceBytes (size bits : ℕ) (isLittleEndian : Bool) (value : BitVec (8 * size)) : List Byte :=
  let firstUsedByte := ((size <<< 3) - bits) >>> 3
  if isLittleEndian then (rawBytes size value).drop firstUsedByte
  else ((rawBytes size value).take (size - firstUsedByte)).reverse

def writeField (size : ℕ) (value : BitVec (8 * size)) (bits : ℕ) (isSigned : Bool) : Write Unit := do
  let o ← get
  if o.currentBit = 0 ∧ bits = size <<< 3 then
    writeRaw (reorder o.isLittleEndian (rawBytes size value))
  else if bits < 1 ∨ (isSigned = true ∧ bits < 2) then
    raise
  else
    copyLoop bits bits 0 (sourceBytes size bits o.isLittleEndian value)

def writeBitValue (size : ℕ) (value : BitVec (8 * size)) (bits : ℕ) (isSigned : Bool) : Write Unit :=
  writeField size value (clampBits size bits) isSigned

def writeWidth (value width : ℕ) : Write Unit :=
  match width with
  | 1 => do
    if value > 0xFF then
      raise
    writeBitValue 1 (BitVec.ofNat 8 value) 8 false
  | 2 => do
    if value > 0xFFFF then
      raise
    writeBitValue 2 (BitVec.ofNat 16 value) 16 false
  | 4 => writeBitValue 4 (BitVec.ofNat 32 value) 32 false
  | _ => pure ()

/-- `_writeValueAt(_value, _position)`, for a type of `size` bytes. -/
def writeTypedAt (size : ℕ) (value : BitVec (8 * size)) (position : ℕ) : Write Unit := do
  let o ← get
  if position + size ≤ o.payload.length then
    writeRawAt (reorder o.isLittleEndian (rawBytes size value)) position

/-- `_writeValueAt(_value, _width, _position)`, for `uint32_t` arguments. -/
def writeValueAt (value width position : ℕ) : Write Unit :=
  match width with
  | 1 => do
    if value > 0xFF then
      raise
    writeTypedAt 1 (BitVec.ofNat 8 value) position
  | 2 => do
    if value > 0xFFFF then
      raise
    writeTypedAt 2 (BitVec.ofNat 16 value) position
  | 4 => writeTypedAt 4 (BitVec.ofNat 32 value) position
  | _ => pure ()

def openContent (width : ℕ) : Write Unit := do
  pushPosition
  writeWidth 0 width
  pushPosition

def takePositions (width : ℕ) : Write (ℕ × ℕ) := do
  let stop ← getPosition
  let start ← popPosition
  let position ← popPosition
  let o ← get
  record (.patched ⟨position, width, start, stop, o.currentBit⟩)
  pure (wrapSub 64 stop start, position)

def closeContent (width : ℕ) : Write Unit := do
  let (length, position) ← takePositions width
  writeValueAt (length % 2 ^ 32) width (position % 2 ^ 32)

def flush : Write Message := do
  bitAlign
  let o ← get
  set { o with payload := [] }
  pure ⟨o.payload.take (o.payload.length % 2 ^ 32), by
    rw [List.length_take]
    have hlt : o.payload.length % 2 ^ 32 < 2 ^ 32 := Nat.mod_lt _ (by decide)
    omega⟩

end SomeIPRuntime.OutputStream
