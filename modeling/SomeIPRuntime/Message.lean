import SomeIPRuntime.Bits

set_option autoImplicit false

namespace SomeIPRuntime
open Bits

/-- The body of a vsomeip message: its length is a 32 bit number. -/
structure Message where
  body : List Byte
  fits : body.length < 2 ^ 32

/-- Why a run ends before it returns: it used memory that it does not own, or a
    loop has used up the iterations it was given. -/
inductive Halt
  | outOfBounds
  | outOfFuel
  deriving DecidableEq, Repr

def wrapSub (w a b : ℕ) : ℕ := (a + (2 ^ w - b % 2 ^ w)) % 2 ^ w

theorem wrapSub_self (w a : ℕ) : wrapSub w a a = 0 := by
  unfold wrapSub
  have hmod := Nat.mod_lt a (Nat.two_pow_pos w)
  have hsplit := Nat.div_add_mod a (2 ^ w)
  have hsum : a + (2 ^ w - a % 2 ^ w) = 2 ^ w * (a / 2 ^ w + 1) := by
    rw [Nat.mul_succ]
    omega
  rw [hsum, Nat.mul_mod_right]

theorem wrapSub_of_le {w a b : ℕ} (h : b ≤ a) (ha : a < 2 ^ w) : wrapSub w a b = a - b := by
  unfold wrapSub
  rw [Nat.mod_eq_of_lt (h.trans_lt ha)]
  have hsum : a + (2 ^ w - b) = (a - b) + 2 ^ w := by omega
  rw [hsum, Nat.add_mod_right, Nat.mod_eq_of_lt (by omega)]

/-- The bytes of `raw_`, lowest address first, as the typed member of the union. -/
def littleEndian : List Byte → ℕ
  | [] => 0
  | b :: bs => b.toNat + 2 ^ 8 * littleEndian bs

def typed (size : ℕ) (raw : List Byte) : BitVec (8 * size) := BitVec.ofNat _ (littleEndian raw)

def rawBytes (size : ℕ) (value : BitVec (8 * size)) : List Byte :=
  (List.range size).map fun i => value.extractLsb' (8 * i) 8

def clampBits (size bits : ℕ) : ℕ := if bits > size <<< 3 then size <<< 3 else bits

theorem clampBits_eq (size bits : ℕ) : clampBits size bits = min bits (8 * size) := by
  unfold clampBits
  rw [Nat.shiftLeft_eq]
  split <;> omega

theorem littleEndian_testBit (raw : List Byte) (i : ℕ) :
    (littleEndian raw).testBit i = bitAt raw i := by
  rw [bitAt_eq]
  induction raw generalizing i with
  | nil => simp [littleEndian]
  | cons b raw ih =>
    have hlt : b.toNat < 2 ^ 8 := b.isLt
    rw [littleEndian, Nat.add_comm, Nat.testBit_two_pow_mul_add _ hlt]
    by_cases h : i < 8
    · rw [if_pos h, Nat.div_eq_of_lt h, Nat.mod_eq_of_lt h]
      rfl
    · rw [if_neg h, ih]
      have hd : i / 8 = (i - 8) / 8 + 1 := by omega
      have hm : i % 8 = (i - 8) % 8 := by omega
      rw [hd, hm, List.getD_cons_succ]

theorem typed_bit {size : ℕ} (raw : List Byte) {i : ℕ} (hi : i < 8 * size) :
    (typed size raw).getLsbD i = bitAt raw i := by
  rw [typed, BitVec.getLsbD_ofNat, littleEndian_testBit]
  simp [hi]

@[simp] theorem rawBytes_length (size : ℕ) (value : BitVec (8 * size)) :
    (rawBytes size value).length = size := by
  simp [rawBytes]

theorem rawBytes_bit {size : ℕ} (value : BitVec (8 * size)) (i : ℕ) :
    bitAt (rawBytes size value) i = value.getLsbD i := by
  rw [bitAt_eq]
  by_cases h : i < 8 * size
  · have hlt : i / 8 < size := by omega
    have hmod : i % 8 < 8 := Nat.mod_lt _ (by decide)
    simp only [rawBytes, List.getD_eq_getElem?_getD, List.getElem?_map, List.getElem?_range hlt,
      Option.map_some, Option.getD_some, BitVec.getLsbD_extractLsb', hmod, decide_true,
      Bool.true_and]
    rw [Nat.div_add_mod]
  · have hnone : (rawBytes size value)[i / 8]? = none :=
      List.getElem?_eq_none (by rw [rawBytes_length]; omega)
    rw [List.getD_eq_getElem?_getD, hnone, BitVec.getLsbD_of_ge value i (by omega)]
    exact BitVec.getLsbD_zero

theorem typed_rawBytes {size : ℕ} (value : BitVec (8 * size)) :
    typed size (rawBytes size value) = value := by
  apply BitVec.eq_of_getLsbD_eq
  intro i hi
  rw [typed_bit _ hi, rawBytes_bit]

end SomeIPRuntime
