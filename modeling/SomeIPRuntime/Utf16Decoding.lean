import SomeIPRuntime.Utf8Validity

set_option autoImplicit false

namespace SomeIPRuntime.StringEncoder
open Bits ProgramRuns Unicode

inductive Item
  | unit (u : ℕ)
  | pair (u v : ℕ)
  deriving DecidableEq, Repr

def Item.point : Item → ℕ
  | .unit u => u
  | .pair u v => u % 0x400 * 0x400 + v % 0x400 + 0x10000

def Item.Legal : Item → Prop
  | .unit _ => True
  | .pair u v => IsHigh u ∧ IsLow v

/-- A pair whose code point has the low sixteen bits of a surrogate. -/
def Item.Shadowed : Item → Prop
  | .unit _ => False
  | .pair u _ => u % 0x40 = 0x36 ∨ u % 0x40 = 0x37

/-- The items of an input; or a surrogate has a unit behind it that is none; or the input ends
    within a code unit or behind a surrogate. -/
inductive Pairing
  | complete (items : List Item)
  | broken
  | cut
  deriving DecidableEq, Repr

def Pairing.cons (x : Item) : Pairing → Pairing
  | .complete items => .complete (x :: items)
  | .broken => .broken
  | .cut => .cut

def pairing (bigEndian : Bool) : List Byte → Pairing
  | [] => .complete []
  | [_] => .cut
  | [a, b] =>
    if isSurrogate (codeUnit bigEndian a b) then .cut else .complete [.unit (codeUnit bigEndian a b)]
  | [_, _, _] => .cut
  | a :: b :: c :: d :: rest =>
    if isSurrogate (codeUnit bigEndian a b) then
      if isSurrogate (codeUnit bigEndian c d) then
        (pairing bigEndian rest).cons (.pair (codeUnit bigEndian a b) (codeUnit bigEndian c d))
      else .broken
    else (pairing bigEndian (c :: d :: rest)).cons (.unit (codeUnit bigEndian a b))

theorem codeUnit_eq (bigEndian : Bool) (a b : Byte) :
    codeUnit bigEndian a b =
      if bigEndian then a.toNat * 0x100 + b.toNat else b.toNat * 0x100 + a.toNat := by
  have hjoin : ∀ x y : Byte, x.toNat <<< 8 ||| y.toNat = x.toNat * 0x100 + y.toNat := fun x y => by
    rw [← Nat.shiftLeft_add_eq_or_of_lt y.isLt, Nat.shiftLeft_eq]
  unfold codeUnit
  split <;> exact hjoin _ _

theorem codeUnit_lt (bigEndian : Bool) (a b : Byte) : codeUnit bigEndian a b < 0x10000 := by
  have ha := a.isLt
  have hb := b.isLt
  rw [codeUnit_eq]
  split <;> omega

theorem codeUnit_bytes16 (bigEndian : Bool) {u : ℕ} (h : u < 0x10000) :
    ∃ a b, bytes16 bigEndian u = [a, b] ∧ codeUnit bigEndian a b = u := by
  cases bigEndian
  · refine ⟨_, _, rfl, ?_⟩
    rw [codeUnit_eq, if_neg Bool.false_ne_true, BitVec.toNat_ofNat, BitVec.toNat_ofNat]
    omega
  · refine ⟨_, _, rfl, ?_⟩
    rw [codeUnit_eq, if_pos rfl, BitVec.toNat_ofNat, BitVec.toNat_ofNat]
    omega

theorem isSurrogate_iff (u : ℕ) : isSurrogate u = true ↔ IsHigh u ∨ IsLow u := by
  unfold isSurrogate IsHigh IsLow
  rw [Bool.and_eq_true, decide_eq_true_iff, decide_eq_true_iff]
  omega

section Rounds
variable {utf16Str rest : List Byte} {bigEndian : Bool} {size bound i : ℕ} {a b c d : Byte}

theorem byteAt_drop (data : List Byte) (i k : ℕ) : byteAt data (i + k) = byteAt (data.drop i) k := by
  unfold byteAt
  rw [List.getElem?_drop]

theorem nextUtf16_eq (hbound : toInt size = bound) (j : ℕ) : nextUtf16 j size = decide (j ≤ bound) := by
  unfold nextUtf16
  rw [hbound]
  exact decide_eq_decide.2 Int.ofNat_le

/-- The bytes of a round, with the tests of the index between them. -/
theorem codePointAt_eq (hbound : toInt size = bound) :
    codePointAt utf16Str bigEndian size i = (do
      let firstByte ← byteAt (utf16Str.drop i) 0
      if ¬ i + 1 ≤ bound then return none
      let secondByte ← byteAt (utf16Str.drop i) 1
      let codePoint := codeUnit bigEndian firstByte secondByte
      if !isSurrogate codePoint then return some (codePoint, i + 2)
      if ¬ i + 2 ≤ bound then return none
      let thirdByte ← byteAt (utf16Str.drop i) 2
      if ¬ i + 3 ≤ bound then return none
      let fourthByte ← byteAt (utf16Str.drop i) 3
      let secondSurrogate := codeUnit bigEndian thirdByte fourthByte
      if !isSurrogate secondSurrogate then return none
      return some ((Item.pair codePoint secondSurrogate).point, i + 4)) := by
  have hpoint : ∀ u v : ℕ, ((u &&& 0x3ff) <<< 10 ||| (v &&& 0x3ff)) + 0x10000 =
      (Item.pair u v).point := by
    intro u v
    rw [Nat.and_two_pow_sub_one_eq_mod u 10, Nat.and_two_pow_sub_one_eq_mod v 10,
      ← Nat.shiftLeft_add_eq_or_of_lt (Nat.mod_lt _ (by decide)), Nat.shiftLeft_eq]
    rfl
  unfold codePointAt
  simp only [nextUtf16_eq hbound, ← byteAt_drop, hpoint, Bool.not_eq_true', decide_eq_false_iff_not,
    Nat.add_zero]

theorem codePointAt_unit (hbound : toInt size = bound) (hdrop : utf16Str.drop i = a :: b :: rest)
    (hin : i < bound) (hunit : isSurrogate (codeUnit bigEndian a b) = false) :
    codePointAt utf16Str bigEndian size i = .ok (some (codeUnit bigEndian a b, i + 2)) := by
  rw [codePointAt_eq hbound, hdrop]
  change (if ¬ i + 1 ≤ bound then _ else _) = _
  rw [if_neg (by omega)]
  change (if (!isSurrogate (codeUnit bigEndian a b)) = true then _ else _) = _
  rw [hunit]
  rfl

theorem codePointAt_surrogate (hbound : toInt size = bound) (hdrop : utf16Str.drop i = a :: b :: rest)
    (hin : i < bound) (hunit : isSurrogate (codeUnit bigEndian a b) = true) :
    codePointAt utf16Str bigEndian size i = (do
      if ¬ i + 2 ≤ bound then return none
      let thirdByte ← byteAt rest 0
      if ¬ i + 3 ≤ bound then return none
      let fourthByte ← byteAt rest 1
      let secondSurrogate := codeUnit bigEndian thirdByte fourthByte
      if !isSurrogate secondSurrogate then return none
      return some ((Item.pair (codeUnit bigEndian a b) secondSurrogate).point, i + 4)) := by
  rw [codePointAt_eq hbound, hdrop]
  change (if ¬ i + 1 ≤ bound then _ else _) = _
  rw [if_neg (by omega)]
  change (if (!isSurrogate (codeUnit bigEndian a b)) = true then _ else _) = _
  rw [hunit]
  rfl

theorem codePointAt_pair (hbound : toInt size = bound)
    (hdrop : utf16Str.drop i = a :: b :: c :: d :: rest) (hin : i + 3 ≤ bound)
    (hfirst : isSurrogate (codeUnit bigEndian a b) = true) :
    codePointAt utf16Str bigEndian size i =
      .ok (if isSurrogate (codeUnit bigEndian c d) = true then
        some ((Item.pair (codeUnit bigEndian a b) (codeUnit bigEndian c d)).point, i + 4)
      else none) := by
  rw [codePointAt_surrogate hbound hdrop (by omega) hfirst, if_neg (by omega)]
  change (if ¬ i + 3 ≤ bound then _ else _) = _
  rw [if_neg (by omega)]
  change (if (!isSurrogate (codeUnit bigEndian c d)) = true then _ else _) = _
  cases isSurrogate (codeUnit bigEndian c d) <;> rfl

def pushed (codePoint : ℕ) : List Byte := (push codePoint .success).1

def judged (points : List ℕ) (status : EncodingStatus) : EncodingStatus :=
  if ∀ n ∈ points, isCodePointValid n = true then status else .invalidCodePoint

theorem push_eq (codePoint : ℕ) (status : EncodingStatus) :
    push codePoint status = (pushed codePoint, judged [codePoint] status) := by
  unfold pushed judged push
  simp only [List.mem_singleton, forall_eq]
  cases isCodePointValid codePoint
  · rfl
  · simp only [Bool.not_true, Bool.false_eq_true, ↓reduceIte]
    split_ifs <;> rfl

theorem judged_cons (n : ℕ) (points : List ℕ) (status : EncodingStatus) :
    judged points (judged [n] status) = judged (n :: points) status := by
  unfold judged
  simp only [List.mem_singleton, forall_eq, List.forall_mem_cons]
  by_cases hn : isCodePointValid n = true
  · simp only [hn, true_and, ↓reduceIte]
  · rw [if_neg hn, ite_self]
    exact (if_neg fun h => hn h.1).symm

theorem utf16To8Loop_end {fuel : ℕ} (status : EncodingStatus) (bytes : List Byte)
    (hend : toInt size ≤ i) :
    utf16To8Loop utf16Str bigEndian size (fuel + 1) i status bytes = .ok (status, some bytes) :=
  if_neg (not_lt.2 hend)

theorem utf16To8Loop_step (hin : (i : ℤ) < toInt size) (fuel : ℕ) (status : EncodingStatus)
    (bytes : List Byte) :
    utf16To8Loop utf16Str bigEndian size (fuel + 1) i status bytes = (do
      match ← codePointAt utf16Str bigEndian size i with
      | none => pure (.invalidUtf16, none)
      | some (codePoint, next) =>
        utf16To8Loop utf16Str bigEndian size fuel next
          (if nextUtf16 next size then judged [codePoint] status else .invalidUtf16)
          (bytes ++ pushed codePoint)) := by
  rw [utf16To8Loop, if_pos hin]
  congr 1
  funext r
  cases r with
  | none => rfl
  | some r =>
    dsimp only
    rw [push_eq]

theorem utf16To8Loop_item (hbound : toInt size = bound) {codePoint next : ℕ} (hin : i < bound)
    (hitem : codePointAt utf16Str bigEndian size i = .ok (some (codePoint, next)))
    (hnext : next ≤ bound) (fuel : ℕ) (status : EncodingStatus) (bytes : List Byte) :
    utf16To8Loop utf16Str bigEndian size (fuel + 1) i status bytes =
      utf16To8Loop utf16Str bigEndian size fuel next (judged [codePoint] status)
        (bytes ++ pushed codePoint) := by
  rw [utf16To8Loop_step (by omega), hitem]
  change utf16To8Loop _ _ _ _ _ (if nextUtf16 next size = true then _ else _) _ = _
  rw [nextUtf16_eq hbound, if_pos (decide_eq_true hnext)]

theorem Pairing.cons_complete {x : Item} {p : Pairing} {items : List Item}
    (h : p.cons x = .complete items) : ∃ rest, p = .complete rest ∧ items = x :: rest := by
  cases p with
  | complete rest => exact ⟨rest, rfl, (Pairing.complete.inj h).symm⟩
  | broken => cases h
  | cut => cases h

theorem drop_two (h : utf16Str.drop i = a :: b :: rest) : utf16Str.drop (i + 2) = rest := by
  rw [← List.drop_drop, h]
  rfl

theorem drop_four (h : utf16Str.drop i = a :: b :: c :: d :: rest) :
    utf16Str.drop (i + 4) = rest := by
  rw [← List.drop_drop, h]
  rfl

/-- The bytes that are looked at make up items: each becomes its code point. -/
theorem utf16To8Loop_complete (hbound : toInt size = bound) {mid beyond : List Byte}
    {items : List Item} (hpairing : pairing bigEndian mid = .complete items)
    (hdrop : utf16Str.drop i = mid ++ beyond) (hend : i + mid.length = bound) {fuel : ℕ}
    (hfuel : mid.length < fuel) (status : EncodingStatus) (bytes : List Byte) :
    utf16To8Loop utf16Str bigEndian size fuel i status bytes =
      .ok (judged (items.map Item.point) status,
        some (bytes ++ (items.map Item.point).flatMap pushed)) := by
  obtain ⟨fuel, rfl⟩ := Nat.exists_eq_succ_of_ne_zero (Nat.ne_of_gt (Nat.zero_lt_of_lt hfuel))
  fun_induction pairing bigEndian mid generalizing i fuel status bytes items with
  | case1 =>
    cases hpairing
    rw [utf16To8Loop_end _ _ (by rw [hbound]; exact_mod_cast hend.symm.le)]
    exact congrArg (fun out => Except.ok (status, some out)) (List.append_nil bytes).symm
  | case2 => cases hpairing
  | case3 => cases hpairing
  | case4 a b hunit =>
    cases hpairing
    simp only [List.length_cons, List.length_nil] at hend hfuel
    obtain ⟨fuel, rfl⟩ := Nat.exists_eq_succ_of_ne_zero (show fuel ≠ 0 by omega)
    rw [utf16To8Loop_item hbound (by omega)
      (codePointAt_unit hbound hdrop (by omega) (Bool.eq_false_iff.2 hunit)) (by omega),
      utf16To8Loop_end _ _ (by omega)]
    simp only [List.map_cons, List.map_nil, List.flatMap_cons, List.flatMap_nil, List.append_nil,
      Item.point]
  | case5 => cases hpairing
  | case6 a b c d rest hfirst hsecond ih =>
    obtain ⟨items, hrest, rfl⟩ := Pairing.cons_complete hpairing
    simp only [List.length_cons] at hend hfuel
    obtain ⟨fuel, rfl⟩ := Nat.exists_eq_succ_of_ne_zero (show fuel ≠ 0 by omega)
    have hitem := codePointAt_pair hbound hdrop (by omega) hfirst
    rw [if_pos hsecond] at hitem
    rw [utf16To8Loop_item hbound (by omega) hitem (by omega),
      ih hrest (drop_four hdrop) (by omega) _ _ fuel (by omega), judged_cons]
    simp only [List.map_cons, List.flatMap_cons, List.append_assoc]
  | case7 => cases hpairing
  | case8 a b c d rest hunit ih =>
    obtain ⟨items, hrest, rfl⟩ := Pairing.cons_complete hpairing
    simp only [List.length_cons] at hend hfuel
    obtain ⟨fuel, rfl⟩ := Nat.exists_eq_succ_of_ne_zero (show fuel ≠ 0 by omega)
    rw [utf16To8Loop_item hbound (by omega)
      (codePointAt_unit hbound hdrop (by omega) (Bool.eq_false_iff.2 hunit)) (by omega),
      ih hrest (drop_two hdrop) (by simp only [List.length_cons]; omega) _ _ fuel
        (by simp only [List.length_cons]; omega), judged_cons]
    simp only [List.map_cons, List.flatMap_cons, List.append_assoc, Item.point]

end Rounds

section Pairings
variable {bigEndian : Bool} {a b c d : Byte} {rest : List Byte}

theorem pairing_unit (h : isSurrogate (codeUnit bigEndian a b) = false) (rest : List Byte) :
    pairing bigEndian (a :: b :: rest) =
      (pairing bigEndian rest).cons (.unit (codeUnit bigEndian a b)) := by
  have hne : ¬ isSurrogate (codeUnit bigEndian a b) = true := Bool.eq_false_iff.1 h
  match rest with
  | [] => exact if_neg hne
  | [_] => rfl
  | c :: d :: rest => rw [pairing, if_neg hne]

theorem pairing_pair (hfirst : isSurrogate (codeUnit bigEndian a b) = true)
    (hsecond : isSurrogate (codeUnit bigEndian c d) = true) (rest : List Byte) :
    pairing bigEndian (a :: b :: c :: d :: rest) = (pairing bigEndian rest).cons
      (.pair (codeUnit bigEndian a b) (codeUnit bigEndian c d)) := by
  rw [pairing, if_pos hfirst, if_pos hsecond]

end Pairings

def Accepted (items : List Item) : Prop := ∀ x ∈ items, isCodePointValid x.point = true

theorem toInt_small {size : ℕ} (h : size < 2 ^ 31) : toInt size = size := by
  unfold toInt
  rw [BitVec.toInt_ofNat', Int.bmod_eq_of_le] <;> omega

section Runs
variable {bigEndian : Bool} {bytes : List Byte}

end Runs

theorem judged_success_iff (items : List Item) :
    judged (items.map Item.point) .success = .success ↔ Accepted items := by
  have hall : (∀ n ∈ items.map Item.point, isCodePointValid n = true) ↔ Accepted items :=
    List.forall_mem_map
  unfold judged
  split_ifs with h
  · exact iff_of_true rfl (hall.1 h)
  · exact iff_of_false nofun fun haccepted => h (hall.2 haccepted)

end SomeIPRuntime.StringEncoder
