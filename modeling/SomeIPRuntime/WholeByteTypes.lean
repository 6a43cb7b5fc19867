import SomeIPRuntime.TypedRoundTrip

set_option autoImplicit false

namespace SomeIPRuntime.TypedValues
open Bits ProgramRuns Deployment
open OutputStream (Clean fieldWidth)
open RoundTrip

mutual

def DataType.Occupies : DataType → Bool
  | .byteBuffer depl => byteBufferLengthWidth depl ≠ 0
  | .byteVector depl => arrayLengthWidth depl ≠ 0
  | .structEmpty fields => fields.SomeOccupies
  | .struct depl fields => structLengthWidth depl ≠ 0 || fields.SomeOccupies
  | .vector depl _ => arrayLengthWidth depl ≠ 0
  | .map depl _ _ => mapLengthWidth depl ≠ 0
  | _ => true

def DataTypes.SomeOccupies : DataTypes → Bool
  | .nil => false
  | .cons first rest => first.Occupies || rest.SomeOccupies

end

mutual

/-- No field is narrower than its type, strings are in UTF-8, and with a length field each element
    takes a byte at least. A `bool` is read from the wrong byte in little endian. -/
def DataType.Whole (le : Bool) : DataType → Prop
  | .bool => le = false
  | .integer type depl => 0 < type.size ∧ ∀ d ∈ depl, 8 * type.size ≤ d.bits
  | .rangedInteger _ _ depl => ∀ d ∈ depl, 32 ≤ d.bits
  | .float => True
  | .double => True
  | .version => True
  | .enumerationEmpty base => 0 < base.size
  | .enumeration base depl =>
    match depl with
    | some d => 0 < base.size ∧ d.bits = 8 * base.size
    | none => base.size = 1
  | .string depl => stringEncoding depl = .utf8 ∧ IsWidth (stringLengthWidth depl)
  | .byteBuffer depl => LengthWidth (byteBufferLengthWidth depl)
  | .byteVector depl => LengthWidth (arrayLengthWidth depl)
  | .structEmpty fields => fields.AllWhole le
  | .struct depl fields => LengthWidth (structLengthWidth depl) ∧ fields.AllWhole le
  | .variant depl alternatives =>
    alternatives.length ≤ 255 ∧ IsWidth (InputStream.lengthWidth depl) ∧ IsWidth (InputStream.typeWidth depl) ∧
      alternatives.AllWhole le
  | .vector depl element =>
    LengthWidth (arrayLengthWidth depl) ∧ element.Whole le ∧
      (arrayLengthWidth depl ≠ 0 → element.Occupies = true)
  | .map depl key mapped =>
    LengthWidth (mapLengthWidth depl) ∧ key.Whole le ∧ mapped.Whole le ∧
      (mapLengthWidth depl ≠ 0 → (key.Occupies || mapped.Occupies) = true)
  | .mapEmpty key mapped =>
    key.Whole le ∧ mapped.Whole le ∧ (key.Occupies || mapped.Occupies) = true

def DataTypes.AllWhole (le : Bool) : DataTypes → Prop
  | .nil => True
  | .cons first rest => first.Whole le ∧ rest.AllWhole le

end

def All {α : Type} (condition : α → Prop) (items : List α) : Prop := ∀ a ∈ items, condition a

mutual

/-- What holds of the objects of the type: a variant has one of its alternatives, a map has no key
    twice, and a byte buffer is not longer than its deployment says. -/
def DataType.WellFormed : (type : DataType) → type.Value → Prop
  | .byteBuffer depl, value =>
    value.length < 2 ^ 32 ∧ cut (byteBufferMaxLength depl) value.length = value.length
  | .structEmpty fields, values => fields.WellFormedFields values
  | .struct _ fields, values => fields.WellFormedFields values
  | .variant _ alternatives, (valueType, some alternative) =>
    valueType = alternatives.number alternative ∧ alternatives.WellFormedAlternative alternative
  | .variant _ _, (_, none) => False
  | .vector _ element, values => All (fun value => element.WellFormed value) values
  | .map _ key mapped, entries =>
    (entries.map Prod.fst).Nodup ∧ All (fun entry => key.WellFormed entry.1 ∧ mapped.WellFormed entry.2) entries
  | .mapEmpty key mapped, entries =>
    (entries.map Prod.fst).Nodup ∧ All (fun entry => key.WellFormed entry.1 ∧ mapped.WellFormed entry.2) entries
  | _, _ => True

def DataTypes.WellFormedFields : (types : DataTypes) → types.Values → Prop
  | .nil, _ => True
  | .cons first rest, (value, values) => first.WellFormed value ∧ rest.WellFormedFields values

def DataTypes.WellFormedAlternative : (types : DataTypes) → types.Alternative → Prop
  | .cons first _, .inl value => first.WellFormed value
  | .cons _ rest, .inr alternative => rest.WellFormedAlternative alternative

end

structure ByteToByte (sendable : ℕ → Prop) (after : ℕ → ℕ) (occupies : Bool) (n : ℕ) : Prop where
  sendable : sendable n
  whole : after n % 8 = 0
  grows : n ≤ after n
  occupies : occupies = true → n < after n

section Leaves
variable {n : ℕ}

theorem toByte_whole (hn : n % 8 = 0) : toByte n = n := by
  unfold toByte
  omega

theorem field_byteToByte (sendable : ℕ → Prop) (bits : ℕ) (h : sendable n) (hn : n % 8 = 0)
    (hbits : bits % 8 = 0) (hpos : 0 < bits) : ByteToByte sendable (· + bits) true n :=
  ⟨h, by omega, Nat.le_add_right n bits, fun _ => Nat.lt_add_of_pos_right hpos⟩

theorem headed_byteToByte {sendable : ℕ → Prop} {after : ℕ → ℕ} {occupies : Bool} (header size : ℕ)
    (hsendable : sendable n) (hn : n % 8 = 0) (hafter : after n = toByte n + 8 * header + 8 * size)
    (hoccupies : occupies = true → 0 < header) : ByteToByte sendable after occupies n := by
  rw [toByte_whole hn] at hafter
  refine ⟨hsendable, by omega, by omega, fun h => ?_⟩
  have hpos := hoccupies h
  omega

/-- The content of a container begins at a byte boundary behind its header. -/
theorem ByteToByte.behind {content : ℕ → Prop} {sendable : ℕ → Prop} {after : ℕ → ℕ} {first occupies : Bool}
    {m : ℕ} (h : ByteToByte content after occupies m) (hsendable : sendable n) (hm : n ≤ m)
    (hlt : first = true → n < m) {behind : ℕ → ℕ} (hbehind : behind n = after m) :
    ByteToByte sendable behind (first || occupies) n := by
  refine ⟨hsendable, hbehind ▸ h.whole, hbehind ▸ hm.trans h.grows, fun hoccupies => ?_⟩
  rw [hbehind]
  rcases Bool.or_eq_true_iff.1 hoccupies with hfirst | hsecond
  · exact (hlt hfirst).trans_le h.grows
  · exact hm.trans_lt (h.occupies hsecond)

theorem clampBits_whole {size bits : ℕ} (h : 8 * size ≤ bits) : clampBits size bits = 8 * size := by
  rw [clampBits_eq]
  exact Nat.min_eq_right h

theorem full_survives (le : Bool) {size : ℕ} (hsize : 0 < size) (isSigned : Bool) (value : BitVec (8 * size)) :
    FieldSurvives size (8 * size) le isSigned value :=
  ⟨representable_full isSigned value,
    (decoded_iff (representable_full isSigned value) (by omega) le_rfl).1 (decoded_full hsize le isSigned value)⟩

theorem integer_whole (le : Bool) (type : IntegerType) (depl : Option (IntegerDeployment type.size))
    (hsize : 0 < type.size) (hdepl : ∀ d ∈ depl, 8 * type.size ≤ d.bits) (value : BitVec (8 * type.size)) :
    IntegerSurvives le type depl value ∧ integerBits type depl = 8 * type.size := by
  refine ⟨⟨hsize, fun d hd => ?_⟩, ?_⟩
  · rw [clampBits_whole (hdepl d hd)]
    exact full_survives le hsize type.isSigned value
  · cases depl with
    | none => exact clampBits_full type.size
    | some d => exact clampBits_whole (hdepl d rfl)

theorem enumeration_whole (le : Bool) (base : IntegerType) (depl : Option (EnumerationDeployment base.size))
    (h : match depl with
      | some d => 0 < base.size ∧ d.bits = 8 * base.size
      | none => base.size = 1) (value : BitVec (8 * base.size)) :
    (0 < base.size ∧ Deployable base depl value ∧ Held base depl le value) ∧
      enumerationBits base depl = 8 * base.size := by
  cases depl with
  | none =>
    have hsize : base.size = 1 := h
    refine ⟨⟨by omega, nofun, hsize⟩, ?_⟩
    change 8 = 8 * base.size
    omega
  | some d =>
    rcases h with ⟨hsize, hbits⟩
    have hvalue := value.isLt
    have hshift : d.bits >>> 3 = base.size := by
      rw [Nat.shiftRight_eq_div_pow, hbits]
      omega
    have hfull := full_survives le hsize d.isSigned value
    refine ⟨⟨hsize, fun e he => ?_, ?_⟩, ?_⟩
    · cases he
      rw [hbits]
      refine ⟨?_, le_rfl, hfull.1⟩
      split <;> omega
    · unfold Held
      dsimp only
      rw [hshift, hbits]
      split_ifs with hone htwo
      · exact hvalue.trans_eq (congrArg (fun size => 2 ^ (8 * size)) hone)
      · exact hvalue.trans_eq (congrArg (fun size => 2 ^ (8 * size)) htwo)
      · exact hfull.2
    · unfold enumerationBits
      dsimp only
      rw [hshift]
      split
      · rename_i hone
        rw [clampBits_whole (by omega), hone]
      · rename_i htwo
        rw [clampBits_whole (by omega), htwo]
      · exact clampBits_whole hbits.ge

theorem string_whole (depl : Option StringDeployment) (hencoding : stringEncoding depl = .utf8)
    (hwidth : IsWidth (stringLengthWidth depl)) (value : List Byte) :
    Transmissible depl value ∧ 0 < stringSize depl value := by
  have hne := hwidth.ne_zero
  constructor
  · unfold Transmissible Takes
    rw [if_pos hencoding, if_neg hne]
  · unfold stringSize
    rw [hencoding]
    change 0 < if stringLengthWidth depl ≠ 0 then _ else _
    rw [if_pos hne]
    omega

theorem fieldWidth_pos {width : ℕ} (hwidth : LengthWidth width) (hne : width ≠ 0) : 0 < fieldWidth width := by
  have hfield : fieldWidth width = width := if_pos (hwidth.resolve_left hne)
  omega

theorem contentStart_whole {width : ℕ} (hwidth : LengthWidth width) (hn : n % 8 = 0) :
    contentStart n width % 8 = 0 ∧ n ≤ contentStart n width ∧
      (decide (width ≠ 0) = true → n < contentStart n width) := by
  unfold contentStart
  rw [toByte_whole hn]
  refine ⟨by omega, Nat.le_add_right _ _, fun hne => ?_⟩
  have hpos := fieldWidth_pos hwidth (of_decide_eq_true hne)
  omega

end Leaves

section Items
variable {α : Type} {after : α → ℕ → ℕ} {condition : α → ℕ → Prop} {occupies : Bool} {items : List α} {n : ℕ}

theorem items_byteToByte
    (h : ∀ a ∈ items, ∀ m, m % 8 = 0 → ByteToByte (condition a) (after a) occupies m) (hn : n % 8 = 0) :
    EachItem after condition items n ∧ (occupies = true → LastItemCompletes after items n) ∧
      afterItems after items n % 8 = 0 ∧ n ≤ afterItems after items n := by
  induction items generalizing n with
  | nil => exact ⟨trivial, fun _ => trivial, hn, le_rfl⟩
  | cons a rest ih =>
    have ha := h a List.mem_cons_self n hn
    rcases ih (fun b hb => h b (List.mem_cons_of_mem a hb)) ha.whole with ⟨heach, hlast, hwhole, hgrows⟩
    refine ⟨⟨ha.sendable, heach⟩, fun hoccupies => ?_, hwhole, ha.grows.trans hgrows⟩
    cases rest with
    | nil =>
      have hlt := ha.occupies hoccupies
      have hend := ha.whole
      change n / 8 < after a n / 8
      omega
    | cons b rest => exact hlast hoccupies

end Items

theorem entry_byteToByte {κ ν : Type} {key : κ → ℕ → Prop} {mapped : ν → ℕ → Prop} {afterKey : κ → ℕ → ℕ}
    {afterMapped : ν → ℕ → ℕ} {first second : Bool} {entry : κ × ν} {n : ℕ}
    (hkey : ByteToByte (key entry.1) (afterKey entry.1) first n)
    (hmapped : ByteToByte (mapped entry.2) (afterMapped entry.2) second (afterKey entry.1 n)) :
    ByteToByte (EntryCondition afterKey key mapped entry) (afterEntry afterKey afterMapped entry)
      (first || second) n where
  sendable := ⟨hkey.sendable, hmapped.sendable⟩
  whole := hmapped.whole
  grows := hkey.grows.trans hmapped.grows
  occupies h := by
    rcases Bool.or_eq_true_iff.1 h with hfirst | hsecond
    · exact (hkey.occupies hfirst).trans_le hmapped.grows
    · exact hkey.grows.trans_lt (hmapped.occupies hsecond)

section Types
variable {le : Bool}

mutual

theorem DataType.byteToByte : ∀ (type : DataType) (value : type.Value), type.Whole le → type.WellFormed value →
    ∀ n, n % 8 = 0 → ByteToByte (type.Sendable le value) (type.after value) type.Occupies n
  | .bool, value, h, _, n, hn =>
    field_byteToByte (DataType.bool.Sendable le value) 8 (fun _ => h) hn (by decide) (by decide)
  | .integer type depl, value, h, _, n, hn => by
    have hwhole := integer_whole le type depl h.1 h.2 value
    have hsize := h.1
    exact field_byteToByte _ (integerBits type depl) hwhole.1 hn (by omega) (by omega)
  | .rangedInteger minimum maximum depl, value, h, _, n, hn => by
    have hwhole := integer_whole le int32 depl (by decide) h value
    exact field_byteToByte _ (integerBits int32 depl) hwhole.1 hn (by rw [hwhole.2]; decide)
      (by rw [hwhole.2]; decide)
  | .float, value, _, _, n, hn =>
    field_byteToByte (DataType.float.Sendable le value) 32 hn hn (by decide) (by decide)
  | .double, value, _, _, n, hn =>
    field_byteToByte (DataType.double.Sendable le value) 64 hn hn (by decide) (by decide)
  | .version, _, _, _, _, hn => headed_byteToByte 8 0 trivial hn rfl fun _ => by decide
  | .enumerationEmpty base, value, h, _, n, hn => by
    have hsize : 0 < base.size := h
    exact field_byteToByte ((DataType.enumerationEmpty base).Sendable le value) (8 * base.size) h hn (by omega)
      (by omega)
  | .enumeration base depl, value, h, _, n, hn => by
    have hwhole := enumeration_whole le base depl h value
    have hsize := hwhole.1.1
    exact field_byteToByte _ (enumerationBits base depl) hwhole.1 hn (by omega) (by omega)
  | .string depl, value, h, _, _, hn =>
    have hwhole := string_whole depl h.1 h.2 value
    headed_byteToByte (stringSize depl value) 0 ⟨Or.inr h.2, hwhole.1⟩ hn rfl fun _ => hwhole.2
  | .byteBuffer depl, value, h, hwell, n, hn =>
    headed_byteToByte (fieldWidth (byteBufferLengthWidth depl))
      (value.take (byteBufferSize depl value.length)).length hwell hn
      (by rw [Nat.add_assoc, ← Nat.mul_add]; rfl)
      fun hne => fieldWidth_pos h (of_decide_eq_true hne)
  | .byteVector depl, value, h, _, _, hn =>
    headed_byteToByte (fieldWidth (arrayLengthWidth depl)) value.length h hn rfl
      fun hne => fieldWidth_pos h (of_decide_eq_true hne)
  | .structEmpty fields, values, h, hwell, n, hn =>
    have hstart := (toByte_whole hn).ge
    have hfields := fields.byteToByteFields values h hwell (toByte n) (Nat.mul_mod_left _ _)
    ⟨hfields.sendable, hfields.whole, hstart.trans hfields.grows,
      fun hoccupies => hstart.trans_lt (hfields.occupies hoccupies)⟩
  | .struct depl fields, values, h, hwell, n, hn =>
    have hstart := contentStart_whole h.1 hn
    have hfields := fields.byteToByteFields values h.2 hwell _ hstart.1
    hfields.behind ⟨h.1, hfields.sendable⟩ hstart.2.1 hstart.2.2 rfl
  | .variant depl alternatives, (valueType, some alternative), h, hwell, n, hn => by
    have hsame := toByte_whole hn
    have htype := fieldWidth_pos (Or.inr h.2.2.1) h.2.2.1.ne_zero
    have hstart : variantStart depl n % 8 = 0 ∧ n < variantStart depl n := by
      unfold variantStart
      omega
    have hcontent := alternatives.byteToByteAlternative alternative h.2.2.2 hwell.2 _ hstart.1
    exact ⟨⟨h.1, hwell.1, Or.inr h.2.1, h.2.2.1, hcontent.sendable,
      fun hzero => absurd hzero h.2.1.ne_zero⟩, hcontent.whole, hstart.2.le.trans hcontent.grows,
      fun _ => hstart.2.trans_le hcontent.grows⟩
  | .vector depl element, values, h, hwell, n, hn => by
    have hstart := contentStart_whole h.1 hn
    rcases items_byteToByte (fun value hvalue m hm => element.byteToByte value h.2.1 (hwell value hvalue) m hm)
      hstart.1 with ⟨heach, hlast, hwhole, hgrows⟩
    exact ⟨⟨h.1, heach, fun hne => hlast (h.2.2 hne)⟩, hwhole, hstart.2.1.trans hgrows,
      fun hne => (hstart.2.2 hne).trans_le hgrows⟩
  | .map depl key mapped, entries, h, hwell, n, hn => by
    have hstart := contentStart_whole h.1 hn
    rcases items_byteToByte (fun entry hentry m hm =>
      have hkey := key.byteToByte entry.1 h.2.1 (hwell.2 entry hentry).1 m hm
      entry_byteToByte hkey (mapped.byteToByte entry.2 h.2.2.1 (hwell.2 entry hentry).2 _ hkey.whole))
      hstart.1 with ⟨heach, hlast, hwhole, hgrows⟩
    exact ⟨⟨h.1, hwell.1, heach, fun hne => hlast (h.2.2.2 hne)⟩, hwhole, hstart.2.1.trans hgrows,
      fun hne => (hstart.2.2 hne).trans_le hgrows⟩
  | .mapEmpty key mapped, entries, h, hwell, n, hn => by
    have hstart := contentStart_whole (show LengthWidth 4 from Or.inr (by decide)) hn
    rcases items_byteToByte (fun entry hentry m hm =>
      have hkey := key.byteToByte entry.1 h.1 (hwell.2 entry hentry).1 m hm
      entry_byteToByte hkey (mapped.byteToByte entry.2 h.2.1 (hwell.2 entry hentry).2 _ hkey.whole))
      hstart.1 with ⟨heach, hlast, hwhole, hgrows⟩
    exact ⟨⟨hwell.1, heach, hlast h.2.2⟩, hwhole, hstart.2.1.trans hgrows,
      fun _ => (hstart.2.2 rfl).trans_le hgrows⟩

theorem DataTypes.byteToByteFields : ∀ (types : DataTypes) (values : types.Values), types.AllWhole le →
    types.WellFormedFields values → ∀ n, n % 8 = 0 →
    ByteToByte (types.SendableFields le values) (types.afterFields values) types.SomeOccupies n
  | .nil, _, _, _, _, hn => ⟨trivial, hn, le_rfl, nofun⟩
  | .cons first rest, (value, values), h, hwell, n, hn =>
    have hfirst := first.byteToByte value h.1 hwell.1 n hn
    have hrest := rest.byteToByteFields values h.2 hwell.2 _ hfirst.whole
    hrest.behind ⟨hfirst.sendable, hrest.sendable⟩ hfirst.grows hfirst.occupies rfl

theorem DataTypes.byteToByteAlternative : ∀ (types : DataTypes) (alternative : types.Alternative),
    types.AllWhole le → types.WellFormedAlternative alternative → ∀ n, n % 8 = 0 →
    ByteToByte (types.SendableAlternative le alternative) (types.afterAlternative alternative) false n
  | .cons first _, .inl value, h, hwell, n, hn =>
    have hfirst := first.byteToByte value h.1 hwell n hn
    ⟨hfirst.sendable, hfirst.whole, hfirst.grows, nofun⟩
  | .cons _ rest, .inr alternative, h, hwell, n, hn =>
    have hrest := rest.byteToByteAlternative alternative h.2 hwell n hn
    ⟨hrest.sendable, hrest.whole, hrest.grows, nofun⟩

end

/-- A value of a type of whole bytes that has been written without an error is read back from
    every byte boundary, whatever its nesting. -/
theorem whole_bytes_round_trip (type : DataType) (value : type.Value) {o t : OutputStream}
    {before : (type : DataType) → type.Value} {uninitialised : ℕ × ℕ} {fuel : ℕ} (ho : Clean o)
    (hbit : o.currentBit = 0) (hwhole : type.Whole o.isLittleEndian) (hwell : type.WellFormed value)
    (hrun : type.write value o = .ok ⟨⟩ t) (herror : t.errorOccurred = false)
    (hshort : t.payload.length < 2 ^ 32) (hfuel : type.longest value ≤ fuel) :
    ReadInFront (type.read before uninitialised fuel) value o t ∧ t.currentBit = 0 := by
  rcases (type.writes value).writer.ok hrun ho with ⟨_, _, hwrote⟩
  have hn : o.bits.length % 8 = 0 := by
    rw [ho.bits_length, hbit]
    omega
  have hbytes := type.byteToByte value hwhole hwell o.bits.length hn
  have hend := type.write_ends value o ⟨⟩ t ho hrun herror hshort
  constructor
  · rw [readInFront_iff hwrote.clean hwrote.bits herror]
    exact fun s hs => type.restores value _ hbytes.sendable hfuel o ho rfl rfl t s hrun herror hs
  · have hlength := hwrote.clean.bits_length
    have hlast := hwrote.clean.bit
    have hzero := hbytes.whole
    rw [← hend, hlength] at hzero
    omega

end Types

def nameTable : DataType :=
  .struct (some ⟨2⟩) (.cons (.map none (.integer uint8 none) (.string none)) (.cons .version .nil))

def twoNames : nameTable.Value :=
  show List (BitVec 8 × List Byte) × InputStream.Version × Unit from
    ([(1, [0x61]), (2, [])], ⟨1, 3⟩, ())

theorem two_names_round_trip :
    ReadInFront (nameTable.read DataType.initial (0, 0) 2) twoNames (OutputStream.create true)
        (finalState (nameTable.write twoNames (OutputStream.create true))) ∧
      (finalState (nameTable.write twoNames (OutputStream.create true))).currentBit = 0 :=
  whole_bytes_round_trip nameTable twoNames (OutputStream.create_clean true) rfl
    ⟨Or.inr (by decide), ⟨Or.inr (by decide), ⟨by decide, nofun⟩, ⟨rfl, by decide⟩, fun _ => rfl⟩,
      trivial, trivial⟩
    ⟨⟨by decide, fun _ _ => ⟨trivial, trivial⟩⟩, trivial, trivial⟩
    (eq_ok_of_returned (by decide +kernel)) (by decide +kernel) (by decide +kernel) (by decide +kernel)

end SomeIPRuntime.TypedValues
