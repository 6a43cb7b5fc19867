import SomeIPRuntime.Utf16Decoding

set_option autoImplicit false

namespace SomeIPRuntime.StringEncoder
open Bits ProgramRuns Unicode

theorem unit16_eq (bigEndian : Bool) (u : ℕ) : unit16 bigEndian u = bytes16 bigEndian u := by
  unfold unit16 bytes16 lowByte
  rw [Nat.shiftRight_eq_div_pow]

theorem units16_char (bigEndian : Bool) (c : Char) :
    units16 bigEndian c.toNat = serialize16 bigEndian (utf16 c) := by
  unfold units16 utf16
  by_cases hsize : c.toNat < 0x10000
  · rw [if_neg (by omega), if_pos hsize, unit16_eq]
    exact (List.append_nil _).symm
  · rw [if_pos (by omega), if_neg hsize]
    dsimp only
    rw [unit16_eq, unit16_eq, Nat.shiftRight_eq_div_pow, Nat.and_two_pow_sub_one_eq_mod _ 10,
      Nat.add_comm, Nat.add_comm (_ % _)]
    simp only [serialize16, List.flatMap_cons, List.flatMap_nil, List.append_nil, Nat.reducePow]

theorem or_mark {x : ℕ} (mark bits : ℕ) (h : x < 2 ^ bits) :
    x ||| mark * 2 ^ bits = mark * 2 ^ bits + x := by
  rw [Nat.or_comm, ← Nat.shiftLeft_eq, Nat.shiftLeft_add_eq_or_of_lt h]

theorem pushed_char {c : Char} (h : ¬ Shadowed c) : pushed c.toNat = utf8 c := by
  have hrange := char_range c
  have htail : ∀ n : ℕ, (n &&& 0x3f) ||| 0x80 = 0x80 + n % 0x40 := fun n => by
    rw [Nat.and_two_pow_sub_one_eq_mod n 6]
    exact or_mark 2 6 (Nat.mod_lt _ (by decide))
  unfold pushed push
  rw [(valid_iff_not_shadowed c).2 h, utf8_eq]
  simp only [Bool.not_true, Bool.false_eq_true, ↓reduceIte, lowByte, htail, Nat.shiftRight_eq_div_pow,
    Nat.reducePow]
  split_ifs with h1 h2 h3
  · rfl
  · rw [show c.toNat / 64 ||| 192 = 192 + c.toNat / 64 from or_mark 3 6 (by omega)]
  · rw [show c.toNat / 4096 ||| 224 = 224 + c.toNat / 4096 from or_mark 7 5 (by omega)]
  · rw [show c.toNat / 262144 ||| 240 = 240 + c.toNat / 262144 from or_mark 15 4 (by omega)]

def itemOf (c : Char) : Item :=
  if c.toNat < 0x10000 then .unit c.toNat
  else .pair (0xd800 + (c.toNat - 0x10000) / 0x400) (0xdc00 + (c.toNat - 0x10000) % 0x400)

theorem itemOf_point (c : Char) : (itemOf c).point = c.toNat := by
  have hrange := char_range c
  unfold itemOf
  split_ifs with hsize
  · rfl
  · unfold Item.point
    dsimp only
    omega

theorem pairing_char (bigEndian : Bool) (c : Char) (rest : List Byte) :
    pairing bigEndian (serialize16 bigEndian (utf16 c) ++ rest) =
      (pairing bigEndian rest).cons (itemOf c) := by
  have hrange := char_range c
  unfold utf16 itemOf
  split_ifs with hsize
  · obtain ⟨a, b, hbytes, hunit⟩ := codeUnit_bytes16 bigEndian hsize
    have hnone : isSurrogate (codeUnit bigEndian a b) = false := by
      rw [hunit, Bool.eq_false_iff, Ne, isSurrogate_iff]
      unfold IsHigh IsLow
      omega
    rw [serialize16, List.flatMap_cons, hbytes, ← hunit]
    exact pairing_unit hnone rest
  · obtain ⟨a, b, hbytes, hunit⟩ := codeUnit_bytes16 bigEndian
      (show 0xd800 + (c.toNat - 0x10000) / 0x400 < 0x10000 by omega)
    obtain ⟨a', b', hbytes', hunit'⟩ := codeUnit_bytes16 bigEndian
      (show 0xdc00 + (c.toNat - 0x10000) % 0x400 < 0x10000 by omega)
    have hfirst : isSurrogate (codeUnit bigEndian a b) = true := by
      rw [hunit, isSurrogate_iff]
      exact Or.inl (by unfold IsHigh; omega)
    have hsecond : isSurrogate (codeUnit bigEndian a' b') = true := by
      rw [hunit', isSurrogate_iff]
      exact Or.inr (by unfold IsLow; omega)
    rw [serialize16, List.flatMap_cons, List.flatMap_cons, hbytes, hbytes', ← hunit, ← hunit']
    exact pairing_pair hfirst hsecond rest

theorem flatMap_units16 (bigEndian : Bool) (cs : List Char) :
    cs.flatMap (fun c => units16 bigEndian c.toNat) = serialize16 bigEndian (encode16 cs) := by
  simp only [units16_char, serialize16, encode16, List.flatMap_assoc]

theorem pairing_encode16 (bigEndian : Bool) (cs : List Char) :
    pairing bigEndian (serialize16 bigEndian (encode16 cs)) = .complete (cs.map itemOf) := by
  induction cs with
  | nil => rfl
  | cons c cs ih =>
    have hcons : serialize16 bigEndian (encode16 (c :: cs)) =
        serialize16 bigEndian (utf16 c) ++ serialize16 bigEndian (encode16 cs) := by
      rw [serialize16, encode16, List.flatMap_cons, List.flatMap_append]
      rfl
    rw [hcons, pairing_char, ih]
    rfl

theorem pushed_encode8 {cs : List Char} (h : ∀ c ∈ cs, ¬ Shadowed c) :
    ((cs.map itemOf).map Item.point).flatMap pushed = encode8 cs := by
  induction cs with
  | nil => rfl
  | cons c cs ih =>
    rw [List.map_cons, List.map_cons, List.flatMap_cons, itemOf_point,
      pushed_char (h c List.mem_cons_self), ih fun d hd => h d (List.mem_cons_of_mem c hd)]
    rfl

theorem serialize16_length (bigEndian : Bool) (us : List ℕ) :
    (serialize16 bigEndian us).length = 2 * us.length := by
  have htwo : ∀ u, (bytes16 bigEndian u).length = 2 := fun u => by
    unfold bytes16
    split <;> rfl
  rw [serialize16, List.length_flatMap, List.map_congr_left fun u _ => htwo u, List.map_const',
    List.sum_replicate, smul_eq_mul, Nat.mul_comm]

theorem encode8_transcoded {cs : List Char} (hcs : ∀ c ∈ cs, c.toNat ≠ 0)
    (h : ∀ c ∈ cs, ¬ Shadowed c) (bigEndian : Bool) (beyond : List Byte) :
    utf8To16 (terminated (encode8 cs) ++ beyond) bigEndian =
      .ok (.success, serialize16 bigEndian (encode16 cs)) := by
  have hlen := encode8_length cs
  have hloop := utf8To16Loop_encode bigEndian hcs h
    (show cs.length < (terminated (encode8 cs) ++ beyond).length + 1 by
      simp only [terminated, List.length_append]
      omega) beyond []
  rw [flatMap_units16] at hloop
  exact hloop

theorem accepted_itemOf {cs : List Char} (h : ∀ c ∈ cs, ¬ Shadowed c) :
    Accepted (cs.map itemOf) := by
  intro x hx
  obtain ⟨c, hc, rfl⟩ := List.mem_map.1 hx
  rw [itemOf_point]
  exact (valid_iff_not_shadowed c).2 (h c hc)

end SomeIPRuntime.StringEncoder
