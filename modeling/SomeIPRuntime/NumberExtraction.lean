import Mathlib.Tactic

set_option autoImplicit false

namespace SomeIPRuntime.NumberExtraction

inductive Base
  | dec
  | hex
  deriving DecidableEq

def Base.radix : Base → ℕ
  | dec => 10
  | hex => 16

def isSpace (c : Char) : Bool := c.toNat = 32 ∨ (9 ≤ c.toNat ∧ c.toNat ≤ 13)

def digit (base : Base) (c : Char) : Option ℕ :=
  if 48 ≤ c.toNat ∧ c.toNat ≤ 57 then some (c.toNat - 48)
  else
    match base with
    | .dec => none
    | .hex =>
      if 97 ≤ c.toNat ∧ c.toNat ≤ 102 then some (c.toNat - 97 + 10)
      else if 65 ≤ c.toNat ∧ c.toNat ≤ 70 then some (c.toNat - 65 + 10)
      else none

def digits (base : Base) : List Char → List ℕ
  | [] => []
  | c :: rest =>
    match digit base c with
    | some d => d :: digits base rest
    | none => []

def accumulate (base : Base) (ds : List ℕ) : ℕ := ds.foldl (fun value d => value * base.radix + d) 0

structure Number where
  negative : Bool
  magnitude : ℕ
  deriving DecidableEq

def splitSign : List Char → Bool × List Char
  | [] => (false, [])
  | c :: rest => if c = '-' then (true, rest) else if c = '+' then (false, rest) else (false, c :: rest)

def dropPrefix : Base → List Char → List Char
  | .hex, '0' :: x :: rest => if x = 'x' ∨ x = 'X' then rest else '0' :: x :: rest
  | _, text => text

def scan (base : Base) (text : List Char) : Option Number :=
  match text.dropWhile isSpace with
  | [] => none
  | c :: rest =>
    let signed := splitSign (c :: rest)
    some ⟨signed.1, accumulate base (digits base (dropPrefix base signed.2))⟩

section Extraction
variable (base : Base) (text : List Char) {w : ℕ}

def extractUnsigned (old : BitVec w) : BitVec w :=
  match scan base text with
  | none => old
  | some number =>
    if 2 ^ w ≤ number.magnitude then BitVec.allOnes w
    else if number.negative then -BitVec.ofNat w number.magnitude
    else BitVec.ofNat w number.magnitude

def extractSigned (old : BitVec w) : BitVec w :=
  match scan base text with
  | none => old
  | some number =>
    if number.negative then
      if 2 ^ (w - 1) < number.magnitude then BitVec.intMin w else -BitVec.ofNat w number.magnitude
    else
      if 2 ^ (w - 1) ≤ number.magnitude then BitVec.intMax w else BitVec.ofNat w number.magnitude

end Extraction

structure Digits (base : Base) (text : List Char) (value : ℕ) : Prop where
  nonempty : text ≠ []
  value : ∃ ds : List ℕ, text.map (digit base) = ds.map some ∧ Nat.ofDigits base.radix ds.reverse = value

theorem accumulate_eq (base : Base) (ds : List ℕ) :
    accumulate base ds = Nat.ofDigits base.radix ds.reverse := by
  unfold accumulate
  rw [Nat.ofDigits_eq_foldr, List.foldr_reverse]
  congr 1
  funext value d
  rw [Nat.cast_id, Nat.add_comm, Nat.mul_comm]

theorem digits_map {base : Base} {text : List Char} {ds : List ℕ}
    (h : text.map (digit base) = ds.map some) : digits base text = ds := by
  induction text generalizing ds with
  | nil =>
    cases ds with
    | nil => rfl
    | cons d ds => cases h
  | cons c rest ih =>
    cases ds with
    | nil => cases h
    | cons d ds =>
      rw [List.map_cons, List.map_cons, List.cons.injEq] at h
      rw [digits, h.1]
      exact congrArg (d :: ·) (ih h.2)

theorem Digits.accumulated {base : Base} {text : List Char} {value : ℕ}
    (h : Digits base text value) : accumulate base (digits base text) = value := by
  rcases h.value with ⟨ds, hds, hvalue⟩
  rw [digits_map hds, accumulate_eq, hvalue]

theorem digit_range {base : Base} {c : Char} {d : ℕ} (h : digit base c = some d) :
    48 ≤ c.toNat ∧ c.toNat ≤ 57 ∨ 65 ≤ c.toNat ∧ c.toNat ≤ 70 ∨ 97 ≤ c.toNat ∧ c.toNat ≤ 102 := by
  unfold digit at h
  by_cases hdec : 48 ≤ c.toNat ∧ c.toNat ≤ 57
  · exact Or.inl hdec
  · rw [if_neg hdec] at h
    cases base with
    | dec => cases h
    | hex =>
      dsimp only at h
      split_ifs at h with hlower hupper
      · exact Or.inr (Or.inr hlower)
      · exact Or.inr (Or.inl hupper)

theorem digit_ne {base : Base} {c other : Char} {d : ℕ} (h : digit base c = some d)
    (hother : digit base other = none) : c ≠ other := by
  rintro rfl
  cases h.symm.trans hother

theorem digit_not_space {base : Base} {c : Char} {d : ℕ} (h : digit base c = some d) :
    isSpace c = false := by
  have hrange := digit_range h
  simp only [isSpace, decide_eq_false_iff_not]
  omega

theorem Digits.mem {base : Base} {text : List Char} {value : ℕ} (h : Digits base text value)
    {c : Char} (hc : c ∈ text) : ∃ d, digit base c = some d := by
  rcases h.value with ⟨ds, hds, _⟩
  have hmem : digit base c ∈ ds.map some := hds ▸ List.mem_map_of_mem hc
  rcases List.mem_map.1 hmem with ⟨d, _, hd⟩
  exact ⟨d, hd.symm⟩

theorem scan_unsigned {base : Base} {c : Char} {rest : List Char} (hspace : isSpace c = false)
    (hminus : c ≠ '-') (hplus : c ≠ '+') :
    scan base (c :: rest) =
      some ⟨false, accumulate base (digits base (dropPrefix base (c :: rest)))⟩ := by
  unfold scan
  rw [List.dropWhile_cons_of_neg (by simp [hspace])]
  simp only [splitSign, if_neg hminus, if_neg hplus]

theorem scan_dec {text : List Char} {value : ℕ} (h : Digits .dec text value) :
    scan .dec text = some ⟨false, value⟩ := by
  cases text with
  | nil => exact absurd rfl h.nonempty
  | cons c rest =>
    rcases h.mem List.mem_cons_self with ⟨d, hdigit⟩
    rw [scan_unsigned (digit_not_space hdigit) (digit_ne hdigit rfl) (digit_ne hdigit rfl)]
    change some (⟨false, accumulate .dec (digits .dec (c :: rest))⟩ : Number) = _
    rw [h.accumulated]

theorem scan_hex {text : List Char} {value : ℕ} (h : Digits .hex text value) :
    scan .hex ('0' :: 'x' :: text) = some ⟨false, value⟩ := by
  rw [scan_unsigned (by decide) (by decide) (by decide)]
  change some (⟨false, accumulate .hex (digits .hex text)⟩ : Number) = _
  rw [h.accumulated]

section Fitting
variable {base : Base} {text : List Char} {w value : ℕ}

theorem extractUnsigned_scan (h : scan base text = some ⟨false, value⟩) (hfits : value < 2 ^ w)
    (old : BitVec w) : extractUnsigned base text old = BitVec.ofNat w value := by
  unfold extractUnsigned
  rw [h]
  exact if_neg (Nat.not_le.2 hfits)

theorem extractSigned_scan (h : scan base text = some ⟨false, value⟩)
    (hfits : value < 2 ^ (w - 1)) (old : BitVec w) :
    extractSigned base text old = BitVec.ofNat w value := by
  unfold extractSigned
  rw [h]
  exact if_neg (Nat.not_le.2 hfits)

end Fitting

end SomeIPRuntime.NumberExtraction
