import Mathlib.Tactic

set_option autoImplicit false

namespace SomeIPRuntime.Unicode

def utf8 (c : Char) : List (BitVec 8) := (String.utf8EncodeChar c).map UInt8.toBitVec

def encode8 (cs : List Char) : List (BitVec 8) := cs.flatMap utf8

def IsHigh (u : ℕ) : Prop := 0xd800 ≤ u ∧ u ≤ 0xdbff

def IsLow (u : ℕ) : Prop := 0xdc00 ≤ u ∧ u ≤ 0xdfff

def utf16 (c : Char) : List ℕ :=
  if c.toNat < 0x10000 then [c.toNat]
  else [0xd800 + (c.toNat - 0x10000) / 0x400, 0xdc00 + (c.toNat - 0x10000) % 0x400]

def encode16 (cs : List Char) : List ℕ := cs.flatMap utf16

def bytes16 (bigEndian : Bool) (u : ℕ) : List (BitVec 8) :=
  if bigEndian then [BitVec.ofNat 8 (u / 0x100), BitVec.ofNat 8 u]
  else [BitVec.ofNat 8 u, BitVec.ofNat 8 (u / 0x100)]

def serialize16 (bigEndian : Bool) (us : List ℕ) : List (BitVec 8) := us.flatMap (bytes16 bigEndian)

theorem char_range (c : Char) : c.toNat < 0xd800 ∨ 0xdfff < c.toNat ∧ c.toNat < 0x110000 := c.valid

theorem exists_char {n : ℕ} (h : n < 0xd800 ∨ 0xdfff < n ∧ n < 0x110000) :
    ∃ c : Char, c.toNat = n := ⟨Char.ofNatAux n h, rfl⟩

theorem byte_eq {m n : ℕ} (h : m = n) : (UInt8.ofNat m).toBitVec = BitVec.ofNat 8 n := by
  rw [h]
  rfl

theorem utf8_eq (c : Char) :
    utf8 c =
      if c.toNat < 0x80 then [BitVec.ofNat 8 c.toNat]
      else if c.toNat < 0x800 then
        [BitVec.ofNat 8 (0xc0 + c.toNat / 0x40), BitVec.ofNat 8 (0x80 + c.toNat % 0x40)]
      else if c.toNat < 0x10000 then
        [BitVec.ofNat 8 (0xe0 + c.toNat / 0x1000), BitVec.ofNat 8 (0x80 + c.toNat / 0x40 % 0x40),
          BitVec.ofNat 8 (0x80 + c.toNat % 0x40)]
      else
        [BitVec.ofNat 8 (0xf0 + c.toNat / 0x40000), BitVec.ofNat 8 (0x80 + c.toNat / 0x1000 % 0x40),
          BitVec.ofNat 8 (0x80 + c.toNat / 0x40 % 0x40), BitVec.ofNat 8 (0x80 + c.toNat % 0x40)] := by
  have hrange := char_range c
  unfold utf8 String.utf8EncodeChar
  dsimp only
  rw [show c.val.toNat = c.toNat from rfl]
  generalize c.toNat = n at hrange
  by_cases h1 : n < 0x80
  · rw [if_pos (by omega), if_pos h1, List.map_singleton, byte_eq rfl]
  · rw [if_neg (by omega), if_neg h1]
    by_cases h2 : n < 0x800
    · rw [if_pos (by omega), if_pos h2]
      simp only [List.map_cons, List.map_nil]
      rw [byte_eq (show n / 64 % 32 + 0xc0 = 0xc0 + n / 0x40 by omega), byte_eq (Nat.add_comm _ _)]
    · rw [if_neg (by omega), if_neg h2]
      by_cases h3 : n < 0x10000
      · rw [if_pos (by omega), if_pos h3]
        simp only [List.map_cons, List.map_nil]
        rw [byte_eq (show n / 4096 % 16 + 0xe0 = 0xe0 + n / 0x1000 by omega),
          byte_eq (Nat.add_comm _ 0x80), byte_eq (Nat.add_comm _ 0x80)]
      · rw [if_neg (by omega), if_neg h3]
        simp only [List.map_cons, List.map_nil]
        rw [byte_eq (show n / 262144 % 8 + 0xf0 = 0xf0 + n / 0x40000 by omega),
          byte_eq (Nat.add_comm _ 0x80), byte_eq (Nat.add_comm _ 0x80), byte_eq (Nat.add_comm _ 0x80)]

section Forms
variable {c : Char} {b t u v : BitVec 8}

theorem byte_of_toNat {n : ℕ} (h : b.toNat = n) : BitVec.ofNat 8 n = b := by
  rw [← h, BitVec.ofNat_toNat, BitVec.setWidth_eq]

theorem utf8_one (hsize : c.toNat < 0x80) (hb : b.toNat = c.toNat) : utf8 c = [b] := by
  rw [utf8_eq, if_pos hsize, byte_of_toNat hb]

theorem utf8_two (hlow : 0x80 ≤ c.toNat) (hhigh : c.toNat < 0x800)
    (hb : b.toNat = 0xc0 + c.toNat / 0x40) (ht : t.toNat = 0x80 + c.toNat % 0x40) :
    utf8 c = [b, t] := by
  rw [utf8_eq, if_neg (by omega), if_pos hhigh, byte_of_toNat hb, byte_of_toNat ht]

theorem utf8_three (hlow : 0x800 ≤ c.toNat) (hhigh : c.toNat < 0x10000)
    (hb : b.toNat = 0xe0 + c.toNat / 0x1000) (ht : t.toNat = 0x80 + c.toNat / 0x40 % 0x40)
    (hu : u.toNat = 0x80 + c.toNat % 0x40) : utf8 c = [b, t, u] := by
  rw [utf8_eq, if_neg (by omega), if_neg (by omega), if_pos hhigh, byte_of_toNat hb,
    byte_of_toNat ht, byte_of_toNat hu]

theorem utf8_four (hlow : 0x10000 ≤ c.toNat) (hb : b.toNat = 0xf0 + c.toNat / 0x40000)
    (ht : t.toNat = 0x80 + c.toNat / 0x1000 % 0x40) (hu : u.toNat = 0x80 + c.toNat / 0x40 % 0x40)
    (hv : v.toNat = 0x80 + c.toNat % 0x40) : utf8 c = [b, t, u, v] := by
  rw [utf8_eq, if_neg (by omega), if_neg (by omega), if_neg (by omega), byte_of_toNat hb,
    byte_of_toNat ht, byte_of_toNat hu, byte_of_toNat hv]

end Forms

theorem utf8_forms (c : Char) :
    (c.toNat < 0x80 ∧ ∃ b, utf8 c = [b] ∧ b.toNat = c.toNat) ∨
    (0x80 ≤ c.toNat ∧ c.toNat < 0x800 ∧ ∃ b t, utf8 c = [b, t] ∧
      b.toNat = 0xc0 + c.toNat / 0x40 ∧ t.toNat = 0x80 + c.toNat % 0x40) ∨
    (0x800 ≤ c.toNat ∧ c.toNat < 0x10000 ∧ ∃ b t u, utf8 c = [b, t, u] ∧
      b.toNat = 0xe0 + c.toNat / 0x1000 ∧ t.toNat = 0x80 + c.toNat / 0x40 % 0x40 ∧
      u.toNat = 0x80 + c.toNat % 0x40) ∨
    (0x10000 ≤ c.toNat ∧ c.toNat < 0x110000 ∧ ∃ b t u v, utf8 c = [b, t, u, v] ∧
      b.toNat = 0xf0 + c.toNat / 0x40000 ∧ t.toNat = 0x80 + c.toNat / 0x1000 % 0x40 ∧
      u.toNat = 0x80 + c.toNat / 0x40 % 0x40 ∧ v.toNat = 0x80 + c.toNat % 0x40) := by
  have hrange := char_range c
  have hnum : ∀ n < 256, (BitVec.ofNat 8 n).toNat = n := fun n hn =>
    (BitVec.toNat_ofNat n 8).trans (Nat.mod_eq_of_lt hn)
  rw [utf8_eq]
  split_ifs with h1 h2 h3
  · exact Or.inl ⟨h1, _, rfl, hnum _ (by omega)⟩
  · exact Or.inr (Or.inl ⟨by omega, h2, _, _, rfl, hnum _ (by omega), hnum _ (by omega)⟩)
  · exact Or.inr (Or.inr (Or.inl ⟨by omega, h3, _, _, _, rfl, hnum _ (by omega), hnum _ (by omega),
      hnum _ (by omega)⟩))
  · exact Or.inr (Or.inr (Or.inr ⟨by omega, by omega, _, _, _, _, rfl, hnum _ (by omega),
      hnum _ (by omega), hnum _ (by omega), hnum _ (by omega)⟩))

end SomeIPRuntime.Unicode
