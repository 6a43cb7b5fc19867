import SomeIPRuntime.Bits

set_option autoImplicit false

/-!
# Deployments

The deployment parameters of the stream overloads. A null deployment pointer is
`none`. `invalid_` is only initialised together with `hasInvalid_`, so the pair
is one optional value. Element, key and value deployments belong to the codecs
that the container overloads are applied to.
-/
namespace SomeIPRuntime.Deployment
open Bits

/-- An integer type of the streams, by its size in bytes and its signedness. -/
structure IntegerType where
  size : ℕ
  isSigned : Bool
  deriving DecidableEq, Repr

def int8 : IntegerType := ⟨1, true⟩
def int16 : IntegerType := ⟨2, true⟩
def int32 : IntegerType := ⟨4, true⟩
def int64 : IntegerType := ⟨8, true⟩
def uint8 : IntegerType := ⟨1, false⟩
def uint16 : IntegerType := ⟨2, false⟩
def uint32 : IntegerType := ⟨4, false⟩
def uint64 : IntegerType := ⟨8, false⟩

structure IntegerDeployment (size : ℕ) where
  bits : ℕ
  invalid : Option (BitVec (8 * size))

structure EnumerationDeployment (size : ℕ) where
  bits : ℕ
  isSigned : Bool
  invalid : Option (BitVec (8 * size))

inductive StringEncoding
  | utf8
  | utf16le
  | utf16be
  deriving DecidableEq, Repr

structure StringDeployment where
  stringLength : ℕ
  stringLengthWidth : ℕ
  stringEncoding : StringEncoding
  deriving DecidableEq, Repr

structure ByteBufferDeployment where
  byteBufferMinLength : ℕ
  byteBufferMaxLength : ℕ
  byteBufferLengthWidth : ℕ
  deriving DecidableEq, Repr

structure StructDeployment where
  structLengthWidth : ℕ
  deriving DecidableEq, Repr

structure VariantDeployment where
  unionLengthWidth : ℕ
  unionTypeWidth : ℕ
  unionDefaultOrder : Bool
  unionMaxLength : ℕ
  deriving DecidableEq, Repr

structure ArrayDeployment where
  arrayMinLength : ℕ
  arrayMaxLength : ℕ
  arrayLengthWidth : ℕ
  deriving DecidableEq, Repr

structure MapDeployment where
  mapMinLength : ℕ
  mapMaxLength : ℕ
  mapLengthWidth : ℕ
  deriving DecidableEq, Repr

def IsWidth (width : ℕ) : Prop := width = 1 ∨ width = 2 ∨ width = 4

instance (width : ℕ) : Decidable (IsWidth width) := by
  unfold IsWidth
  infer_instance

theorem IsWidth.ne_zero {width : ℕ} (h : IsWidth width) : width ≠ 0 := by
  unfold IsWidth at h
  omega

theorem IsWidth.le_four {width : ℕ} (h : IsWidth width) : width ≤ 4 := by
  unfold IsWidth at h
  omega

end SomeIPRuntime.Deployment
