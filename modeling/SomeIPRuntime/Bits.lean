import Mathlib.Data.List.Basic
import Mathlib.Tactic

set_option autoImplicit false

/-!
# Bytes as least-significant-bit-first bit sequences

A byte sequence is read as the sequence of its bits, the least significant bit
of each byte first. Cursors that stand inside a byte, fields that straddle
bytes and bytes that are only partly filled are all positions and windows of
that one sequence.
-/
namespace SomeIPRuntime.Bits

abbrev Byte := BitVec 8

def byteBits (b : Byte) : List Bool := (List.range 8).map b.getLsbD

def bitsOf (bs : List Byte) : List Bool := bs.flatMap byteBits

@[simp] theorem byteBits_length (b : Byte) : (byteBits b).length = 8 := by
  simp [byteBits]

theorem byteBits_get (b : Byte) (i : ℕ) (h : i < 8) : (byteBits b)[i]? = some (b.getLsbD i) := by
  simp [byteBits, h]

@[simp] theorem bitsOf_nil : bitsOf [] = [] := rfl

@[simp] theorem bitsOf_cons (b : Byte) (bs : List Byte) :
    bitsOf (b :: bs) = byteBits b ++ bitsOf bs := rfl

@[simp] theorem bitsOf_append (xs ys : List Byte) : bitsOf (xs ++ ys) = bitsOf xs ++ bitsOf ys := by
  simp [bitsOf]

@[simp] theorem bitsOf_length (bs : List Byte) : (bitsOf bs).length = 8 * bs.length := by
  induction bs with
  | nil => rfl
  | cons b bs ih => simp [ih]; omega

theorem bitsOf_get (bs : List Byte) (i : ℕ) :
    (bitsOf bs)[i]? = bs[i / 8]?.map fun b => b.getLsbD (i % 8) := by
  induction bs generalizing i with
  | nil => simp
  | cons b bs ih =>
    rw [bitsOf_cons]
    by_cases h : i < 8
    · rw [List.getElem?_append_left (by simpa using h), byteBits_get b i h]
      simp [Nat.div_eq_of_lt h, Nat.mod_eq_of_lt h]
    · rw [List.getElem?_append_right (by simpa using Nat.le_of_not_lt h), byteBits_length, ih]
      have hd : i / 8 = (i - 8) / 8 + 1 := by omega
      have hm : i % 8 = (i - 8) % 8 := by omega
      rw [hd, hm, List.getElem?_cons_succ]

theorem bitsOf_drop (bs : List Byte) (n : ℕ) : (bitsOf bs).drop (8 * n) = bitsOf (bs.drop n) := by
  induction bs generalizing n with
  | nil => simp
  | cons b bs ih =>
    cases n with
    | zero => rfl
    | succ n =>
      have hlen : 8 * (n + 1) = (byteBits b).length + 8 * n := by
        rw [byteBits_length]
        omega
      rw [bitsOf_cons, hlen, ← List.drop_drop, List.drop_left, ih]
      rfl

theorem byteBits_injective : Function.Injective byteBits := by
  intro a b h
  apply BitVec.eq_of_getLsbD_eq
  intro i hi
  have hget := congrArg (fun xs => xs[i]?) h
  simpa [byteBits_get _ i hi] using hget

/-- Whole bytes are a prefix of a bit sequence only as whole bytes. -/
theorem bytes_extend {xs ys : List Byte} (tail : List Bool)
    (h : bitsOf xs <+: bitsOf ys ++ tail) (htail : tail.length < 8) : xs <+: ys := by
  induction xs generalizing ys with
  | nil => exact List.nil_prefix
  | cons x xs ih =>
    cases ys with
    | nil =>
      have hlen := h.length_le
      simp at hlen
      omega
    | cons y ys =>
      obtain ⟨rest, hrest⟩ := h
      rw [bitsOf_cons, bitsOf_cons, List.append_assoc, List.append_assoc] at hrest
      obtain ⟨hb, hs⟩ := List.append_inj hrest (by simp)
      rw [byteBits_injective hb]
      exact (List.cons_prefix_cons.2 ⟨rfl, ih ⟨rest, hs⟩⟩)

def bitAt (bs : List Byte) (i : ℕ) : Bool := (bitsOf bs).getD i false

theorem bitAt_eq (bs : List Byte) (i : ℕ) : bitAt bs i = (bs.getD (i / 8) 0).getLsbD (i % 8) := by
  unfold bitAt
  rw [List.getD_eq_getElem?_getD, List.getD_eq_getElem?_getD, bitsOf_get]
  cases bs[i / 8]? <;> simp

def window (bs : List Byte) (p n : ℕ) : List Bool := ((bitsOf bs).drop p).take n

theorem window_get (bs : List Byte) (p n i : ℕ) (hi : i < n) :
    (window bs p n).getD i false = bitAt bs (p + i) := by
  simp [window, bitAt, List.getD_eq_getElem?_getD, hi]

end SomeIPRuntime.Bits
