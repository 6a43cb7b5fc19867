import SomeIPRuntime.Message
import SomeIPRuntime.Deployment

set_option autoImplicit false

/-!
# StringEncoder

The transcoding functions over the memory that starts at the given pointer. A
pointer that moves is the rest of that memory, and dereferencing it past the end
halts. The UTF-16 pointer and its index always move together, so the index
alone is kept. Code points are numbers below 2 ^ 32.
-/
namespace SomeIPRuntime.StringEncoder
open Bits Deployment

inductive EncodingStatus
  | unknown
  | success
  | notEnoughRoom
  | invalidBom
  | invalidLead
  | invalidCodePoint
  | incompleteSequence
  | sequenceTooLong
  | invalidUtf16
  deriving DecidableEq, Repr

def byteAt (data : List Byte) (i : ℕ) : Except Halt Byte :=
  match data[i]? with
  | some b => .ok b
  | none => .error .outOfBounds

/-- The bytes from `data[i]` on are the expected ones; stops at the first other one. -/
def startsWith (data : List Byte) : List Byte → ℕ → Except Halt Bool
  | [], _ => .ok true
  | expected :: rest, i => do
    let b ← byteAt data i
    if b = expected then startsWith data rest (i + 1) else pure false

def bom : StringEncoding → List Byte
  | .utf8 => [0xEF, 0xBB, 0xBF]
  | .utf16le => [0xFF, 0xFE]
  | .utf16be => [0xFE, 0xFF]

def checkBom (data : List Byte) (size : ℕ) (encoding : StringEncoding) :
    Except Halt (Bool × List Byte × ℕ) := do
  if size > 3 then
    if ← startsWith data (bom encoding) 0 then
      pure (true, data.drop (bom encoding).length, size - (bom encoding).length)
    else
      pure (false, data, size)
  else
    pure (false, data, size)

def isNewSequence (b : Byte) : Bool := b >>> 6 == 2

def isSurrogate (codePoint : ℕ) : Bool := 0xd800 ≤ codePoint && codePoint ≤ 0xdfff

def isCodePointValid (codePoint : ℕ) : Bool :=
  codePoint ≤ 0x10ffff && !isSurrogate (codePoint % 2 ^ 16)

def isSequenceTooLong (codePoint size : ℕ) : Bool :=
  if codePoint < 0x80 then size != 1
  else if codePoint < 0x800 then size != 2
  else if codePoint < 0x10000 then size != 3
  else false

def lowByte (n : ℕ) : Byte := BitVec.ofNat 8 n

def push (codePoint : ℕ) (status : EncodingStatus) : List Byte × EncodingStatus :=
  if !isCodePointValid codePoint then
    ([0], .invalidCodePoint)
  else if codePoint < 0x80 then
    ([lowByte codePoint], status)
  else if codePoint < 0x800 then
    ([lowByte ((codePoint >>> 6) ||| 0xc0), lowByte ((codePoint &&& 0x3f) ||| 0x80)], status)
  else if codePoint < 0x10000 then
    ([lowByte ((codePoint >>> 12) ||| 0xe0), lowByte (((codePoint >>> 6) &&& 0x3f) ||| 0x80),
      lowByte ((codePoint &&& 0x3f) ||| 0x80)], status)
  else
    ([lowByte ((codePoint >>> 18) ||| 0xf0), lowByte (((codePoint >>> 12) &&& 0x3f) ||| 0x80),
      lowByte (((codePoint >>> 6) &&& 0x3f) ||| 0x80), lowByte ((codePoint &&& 0x3f) ||| 0x80)],
      status)

def head (pointer : List Byte) : Except Halt Byte := byteAt pointer 0

def nextUtf8 (pointer : List Byte) : Except Halt (List Byte × Option EncodingStatus) := do
  let pointer := pointer.drop 1
  let b ← head pointer
  if b = 0 then pure (pointer, some .notEnoughRoom)
  else if !isNewSequence b then pure (pointer, some .incompleteSequence)
  else pure (pointer, none)

def continuation : List (ℕ × ℕ) → List Byte → EncodingStatus → ℕ →
    Except Halt (List Byte × EncodingStatus × ℕ)
  | [], pointer, status, codePoint => .ok (pointer, status, codePoint)
  | (shift, mask) :: rest, pointer, status, codePoint => do
    match ← nextUtf8 pointer with
    | (pointer, some failure) => pure (pointer, failure, 0)
    | (pointer, none) =>
      let b ← head pointer
      continuation rest pointer status (codePoint + ((b.toNat <<< shift) &&& mask))

def getByteSequence1 (pointer : List Byte) (status : EncodingStatus) :
    Except Halt (List Byte × EncodingStatus × ℕ) := do
  let b ← head pointer
  if b = 0 then pure (pointer, .notEnoughRoom, 0) else pure (pointer, status, b.toNat)

/-- 110x xxxx 10xx xxxx and the longer forms: the lead byte is shifted by `shift`
    and masked, the rest is given by the shifts and masks of `continuation`. -/
def getByteSequence (shift mask : ℕ) (rest : List (ℕ × ℕ)) (pointer : List Byte)
    (status : EncodingStatus) : Except Halt (List Byte × EncodingStatus × ℕ) := do
  let b ← head pointer
  if b = 0 then pure (pointer, .notEnoughRoom, 0)
  else continuation rest pointer status ((b.toNat <<< shift) &&& mask)

def getByteSequence2 := getByteSequence 6 0x7ff [(0, 0x3f)]

def getByteSequence3 := getByteSequence 12 0xffff [(6, 0xfff), (0, 0x3f)]

def getByteSequence4 := getByteSequence 18 0x1fffff [(12, 0x3ffff), (6, 0xfff), (0, 0x3f)]

def getSequenceLength (b : Byte) : ℕ :=
  if b < 0x80 then 1
  else if b >>> 5 = 0x6 then 2
  else if b >>> 4 = 0xe then 3
  else if b >>> 3 = 0x1e then 4
  else 0

def getNextBytes (pointer : List Byte) (status : EncodingStatus) :
    Except Halt (List Byte × EncodingStatus × ℕ) := do
  let b ← head pointer
  let sequenceLength := getSequenceLength b
  let (pointer, status, codePoint) ←
    match sequenceLength with
    | 1 => getByteSequence1 pointer status
    | 2 => getByteSequence2 pointer status
    | 3 => getByteSequence3 pointer status
    | 4 => getByteSequence4 pointer status
    | _ => pure (pointer, EncodingStatus.invalidLead, 0)
  if status = .success then
    if isSequenceTooLong codePoint sequenceLength then pure (pointer, .sequenceTooLong, 0)
    else if !isCodePointValid codePoint then pure (pointer, .invalidCodePoint, 0)
    else pure (pointer, status, codePoint)
  else
    pure (pointer, status, 0)

def unit16 (bigEndian : Bool) (u : ℕ) : List Byte :=
  if bigEndian then [lowByte (u >>> 8), lowByte u] else [lowByte u, lowByte (u >>> 8)]

def units16 (bigEndian : Bool) (codePoint : ℕ) : List Byte :=
  if codePoint > 0xffff then
    let base := codePoint - 0x10000
    unit16 bigEndian ((base >>> 10) + 0xd800) ++ unit16 bigEndian ((base &&& 0x3ff) + 0xdc00)
  else
    unit16 bigEndian codePoint

def utf8To16Loop (bigEndian : Bool) : ℕ → List Byte → EncodingStatus → List Byte →
    Except Halt (EncodingStatus × List Byte)
  | 0, _, _, _ => .error .outOfFuel
  | fuel + 1, pointer, status, bytes => do
    let b ← head pointer
    if b = 0 then
      pure (status, bytes)
    else
      let (pointer, status, codePoint) ← getNextBytes pointer status
      utf8To16Loop bigEndian fuel (pointer.drop 1) status (bytes ++ units16 bigEndian codePoint)

def utf8To16 (utf8Str : List Byte) (bigEndian : Bool) : Except Halt (EncodingStatus × List Byte) :=
  utf8To16Loop bigEndian (utf8Str.length + 1) utf8Str .success []

def isUtf8ValidLoop : ℕ → List Byte → Except Halt Bool
  | 0, _ => .error .outOfFuel
  | fuel + 1, pointer => do
    let b ← head pointer
    if b = 0 then
      pure true
    else
      let (pointer, status, _) ← getNextBytes pointer .unknown
      if status ≠ .success then pure false else isUtf8ValidLoop fuel (pointer.drop 1)

def isUtf8Valid (utf8Str : List Byte) : Except Halt Bool :=
  isUtf8ValidLoop (utf8Str.length + 1) utf8Str

def toInt (size : ℕ) : ℤ := (BitVec.ofNat 32 size).toInt

def nextUtf16 (index size : ℕ) : Bool := (index : ℤ) ≤ toInt size

def codeUnit (bigEndian : Bool) (first second : Byte) : ℕ :=
  if bigEndian then first.toNat <<< 8 ||| second.toNat else second.toNat <<< 8 ||| first.toNat

/-- The code point at `i` and the index behind it, `none` where the code units are no
    code point. -/
def codePointAt (utf16Str : List Byte) (bigEndian : Bool) (size i : ℕ) :
    Except Halt (Option (ℕ × ℕ)) := do
  let firstByte ← byteAt utf16Str i
  if !nextUtf16 (i + 1) size then return none
  let secondByte ← byteAt utf16Str (i + 1)
  let codePoint := codeUnit bigEndian firstByte secondByte
  if !isSurrogate codePoint then return some (codePoint, i + 2)
  if !nextUtf16 (i + 2) size then return none
  let thirdByte ← byteAt utf16Str (i + 2)
  if !nextUtf16 (i + 3) size then return none
  let fourthByte ← byteAt utf16Str (i + 3)
  let secondSurrogate := codeUnit bigEndian thirdByte fourthByte
  if !isSurrogate secondSurrogate then return none
  return some (((codePoint &&& 0x3ff) <<< 10 ||| (secondSurrogate &&& 0x3ff)) + 0x10000, i + 4)

def utf16To8Loop (utf16Str : List Byte) (bigEndian : Bool) (size : ℕ) :
    ℕ → ℕ → EncodingStatus → List Byte → Except Halt (EncodingStatus × Option (List Byte))
  | 0, _, _, _ => .error .outOfFuel
  | fuel + 1, i, status, bytes => do
    if (i : ℤ) < toInt size then
      match ← codePointAt utf16Str bigEndian size i with
      | none => pure (.invalidUtf16, none)
      | some (codePoint, next) =>
        let (b, status) := push codePoint status
        let status := if nextUtf16 next size then status else .invalidUtf16
        utf16To8Loop utf16Str bigEndian size fuel next status (bytes ++ b)
    else
      pure (status, some bytes)

def utf16To8 (utf16Str : List Byte) (bigEndian : Bool) (size : ℕ) :
    Except Halt (EncodingStatus × List Byte) := do
  let (status, bytes) ← utf16To8Loop utf16Str bigEndian size (size + 1) 0 .success []
  match bytes with
  | some bytes => pure (status, bytes ++ [0])
  | none => pure (status, [])

end SomeIPRuntime.StringEncoder
