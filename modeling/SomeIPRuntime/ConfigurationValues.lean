import SomeIPRuntime.AddressTranslator
import SomeIPRuntime.Message
import SomeIPRuntime.NumberExtraction

set_option autoImplicit false

/-!
# Values of the configuration file

`Configuration::readValue`. Positions are 64 bit numbers that wrap around, and `npos`
is the largest of them. `substr` throws from behind the end.
-/
namespace SomeIPRuntime.Configuration
open NumberExtraction

/-- `std::string::npos` -/
def npos : ℕ := 2 ^ 64 - 1

/-- `std::string` -/
structure Text where
  chars : List Char
  short : chars.length < npos

def Text.find (data : Text) (c : Char) (pos : ℕ) : ℕ :=
  match (data.chars.drop pos).idxOf? c with
  | some i => pos + i
  | none => npos

def Text.substr (data : Text) (pos count : ℕ) : Option (List Char) :=
  if data.chars.length < pos then none else some ((data.chars.drop pos).take count)

def behind (found : ℕ) : ℕ := (found + 1) % 2 ^ 64

def between (next found : ℕ) : ℕ := wrapSub 64 (wrapSub 64 next found) 1

structure Parts where
  itsServiceStr : List Char
  itsInstanceStr : List Char
  itsMajorStr : List Char := ['1']
  itsMinorStr : List Char := ['0']
  itsIdStr : List Char := ['0', 'x', 'F', 'F', 'F', 'F']

def splitValue (data : Text) (readId : Bool) : Option (Option Parts) := do
  let foundService := data.find ':' 0
  if foundService = npos then return none
  let itsServiceStr ← data.substr 0 foundService
  let foundInstance := data.find ':' (behind foundService)
  let itsInstanceStr ← data.substr (behind foundService) (between foundInstance foundService)
  let parts : Parts := { itsServiceStr, itsInstanceStr }
  if foundService ≠ npos then
    let foundMajor := data.find ':' (behind foundInstance)
    let itsTempStr ← data.substr (behind foundInstance) (between foundMajor foundInstance)
    if foundMajor ≠ npos then
      let foundMinor := data.find ':' (behind foundMajor)
      let itsMinorStr ← data.substr (behind foundMajor) (between foundMinor foundMajor)
      if foundMinor ≠ npos then
        let itsIdStr ← data.substr (behind foundMinor) npos
        return some { parts with itsMajorStr := itsTempStr, itsMinorStr, itsIdStr }
      return some { parts with itsMajorStr := itsTempStr, itsMinorStr }
    if readId then return some { parts with itsIdStr := itsTempStr }
    return some parts
  if readId then return none
  return some parts

def baseOf (text : List Char) : Base := if ['0', 'x'].isPrefixOf text then .hex else .dec

def readUnsigned {w : ℕ} (text : List Char) (old : BitVec w) : BitVec w :=
  extractUnsigned (baseOf text) text old

def readMajor (text : List Char) : MajorVersion :=
  (extractSigned (baseOf text) text (0 : BitVec 32)).setWidth 8

def Parts.address (parts : Parts) : Address where
  service := readUnsigned parts.itsServiceStr 0
  instance_ := readUnsigned parts.itsInstanceStr 0
  majorVersion := readMajor parts.itsMajorStr
  minorVersion := readUnsigned parts.itsMinorStr 0

def readValue (data : Text) (address : Address) (id : BitVec 16) (readId : Bool) :
    Option (Bool × Address × BitVec 16) := do
  match ← splitValue data readId with
  | none => return (false, address, id)
  | some parts => return (true, parts.address, readUnsigned parts.itsIdStr id)

theorem behind_find_le (data : Text) (c : Char) (pos : ℕ) :
    behind (data.find c pos) ≤ data.chars.length := by
  unfold Text.find
  cases hfind : (data.chars.drop pos).idxOf? c with
  | none =>
    change behind npos ≤ _
    exact Nat.zero_le _
  | some i =>
    change behind (pos + i) ≤ _
    have hlt := (List.findIdx?_eq_some_iff_getElem.1 hfind).1
    have hshort := data.short
    rw [List.length_drop] at hlt
    unfold npos at hshort
    unfold behind
    rw [Nat.mod_eq_of_lt (by omega)]
    omega

theorem substr_some {data : Text} {pos : ℕ} (h : pos ≤ data.chars.length) (count : ℕ) :
    data.substr pos count = some ((data.chars.drop pos).take count) :=
  if_neg (Nat.not_lt.2 h)

theorem split_total (data : Text) (readId : Bool) : ∃ parts, splitValue data readId = some parts := by
  unfold splitValue
  simp only [substr_some (Nat.zero_le _), substr_some (behind_find_le _ _ _), bind, pure,
    Option.bind_some]
  split_ifs <;> exact ⟨_, rfl⟩

theorem readValue_total (data : Text) (address : Address) (id : BitVec 16) (readId : Bool) :
    ∃ result, readValue data address id readId = some result := by
  unfold readValue
  rcases split_total data readId with ⟨parts, hparts⟩
  rw [hparts]
  cases parts with
  | none => exact ⟨_, rfl⟩
  | some parts => exact ⟨_, rfl⟩

theorem between_of_lt {next found : ℕ} (hlt : found < next) (hfits : next < 2 ^ 64) :
    between next found = next - found - 1 := by
  have hinner : wrapSub 64 next found = next - found := wrapSub_of_le hlt.le hfits
  unfold between
  rw [hinner]
  exact wrapSub_of_le (by omega) (by omega)

section Splitting
variable {data : Text} {front mid post : List Char}

theorem idxOf_colon (h : ':' ∉ mid) : (mid ++ ':' :: post).idxOf? ':' = some mid.length := by
  induction mid with
  | nil => rfl
  | cons c rest ih =>
    rw [List.mem_cons, not_or] at h
    rw [List.cons_append, List.idxOf?_cons, if_neg (by simpa using Ne.symm h.1), ih h.2]
    rfl

theorem idxOf_none (h : ':' ∉ mid) : mid.idxOf? ':' = none := List.idxOf?_eq_none_iff.2 h

theorem find_first (hdata : data.chars = mid ++ ':' :: post) (hmid : ':' ∉ mid) :
    data.find ':' 0 = mid.length := by
  unfold Text.find
  rw [List.drop_zero, hdata, idxOf_colon hmid]
  exact Nat.zero_add _

theorem find_nothing (hmid : ':' ∉ data.chars) : data.find ':' 0 = npos := by
  unfold Text.find
  rw [List.drop_zero, idxOf_none hmid]

theorem behind_found (h : data.chars = front ++ ':' :: post) :
    behind front.length = front.length + 1 := by
  have hshort := data.short
  rw [h, List.length_append, List.length_cons] at hshort
  unfold npos at hshort
  exact Nat.mod_eq_of_lt (by omega)

theorem drop_behind (h : data.chars = front ++ ':' :: post) :
    data.chars.drop (behind front.length) = post := by
  rw [behind_found h, h, List.drop_append, List.drop_eq_nil_of_le (Nat.le_succ _)]
  rw [Nat.add_sub_cancel_left]
  rfl

theorem substr_behind (h : data.chars = front ++ ':' :: post) (count : ℕ) :
    data.substr (behind front.length) count = some (post.take count) := by
  have hle : behind front.length ≤ data.chars.length := by
    rw [behind_found h, h, List.length_append, List.length_cons]
    omega
  rw [substr_some hle, drop_behind h]

theorem field_between (h : data.chars = front ++ ':' :: mid ++ ':' :: post) (hmid : ':' ∉ mid) :
    data.find ':' (behind front.length) = (front ++ ':' :: mid).length ∧
      data.substr (behind front.length)
        (between (front ++ ':' :: mid).length front.length) = some mid := by
  have hsplit : data.chars = front ++ ':' :: (mid ++ ':' :: post) := by
    rw [h, List.append_assoc, List.cons_append]
  have hshort := data.short
  rw [h, List.length_append, List.length_cons] at hshort
  unfold npos at hshort
  have hlength : (front ++ ':' :: mid).length = front.length + 1 + mid.length := by
    rw [List.length_append, List.length_cons]
    omega
  constructor
  · unfold Text.find
    rw [drop_behind hsplit, idxOf_colon hmid, behind_found hsplit, hlength]
  · have hcount : between (front ++ ':' :: mid).length front.length = mid.length := by
      rw [between_of_lt (by omega) (by omega)]
      omega
    rw [substr_behind hsplit, hcount, List.take_left]

theorem field_last (h : data.chars = front ++ ':' :: mid) (hmid : ':' ∉ mid) :
    data.find ':' (behind front.length) = npos ∧
      data.substr (behind front.length) (between npos front.length) = some mid := by
  have hshort := data.short
  rw [h, List.length_append, List.length_cons] at hshort
  unfold npos at hshort
  constructor
  · unfold Text.find
    rw [drop_behind h, idxOf_none hmid]
  · have hcount : mid.length ≤ between npos front.length := by
      unfold npos
      rw [between_of_lt (by omega) (by omega)]
      omega
    rw [substr_behind h, List.take_of_length_le hcount]

theorem substr_first (h : data.chars = mid ++ ':' :: post) :
    data.substr 0 mid.length = some mid := by
  rw [substr_some (Nat.zero_le _), List.drop_zero, h, List.take_left]

theorem found_ne (h : data.chars = front ++ ':' :: post) : front.length ≠ npos := by
  have hshort := data.short
  rw [h, List.length_append] at hshort
  omega

end Splitting

section Shapes
variable {data : Text} {service instance_ major minor id : List Char}
  (hservice : ':' ∉ service) (hinstance : ':' ∉ instance_)
include hservice hinstance

/-- No colon is behind the instance: the search wraps around, and finds the first one again. -/
theorem split_short (readId : Bool) (h : data.chars = service ++ ':' :: instance_) :
    splitValue data readId =
      some (some { itsServiceStr := service
                   itsInstanceStr := instance_
                   itsMajorStr := service
                   itsMinorStr := instance_ }) := by
  have hfirst := find_first h hservice
  have hfield := field_last h hinstance
  have hwrapped : behind npos = 0 := rfl
  have hcount : between service.length npos = service.length := by
    have hshort := data.short
    rw [h, List.length_append, List.length_cons] at hshort
    unfold npos at hshort
    unfold between wrapSub npos
    omega
  unfold splitValue
  simp only [hfirst, hfield, hwrapped, hcount, substr_first h, found_ne h, bind, pure,
    Option.bind_some, if_false, ne_eq, not_true, not_false_eq_true, if_true]

theorem split_id (hid : ':' ∉ id) (h : data.chars = service ++ ':' :: instance_ ++ ':' :: id) :
    splitValue data true =
      some (some { itsServiceStr := service
                   itsInstanceStr := instance_
                   itsIdStr := id }) := by
  have hsplit : data.chars = service ++ ':' :: (instance_ ++ ':' :: id) := by
    rw [h, List.append_assoc, List.cons_append]
  have hfirst := find_first hsplit hservice
  have hfield := field_between h hinstance
  have hlast := field_last h hid
  unfold splitValue
  simp only [hfirst, hfield, hlast, substr_first hsplit, found_ne hsplit, bind, pure,
    Option.bind_some, if_false, ne_eq, not_true, not_false_eq_true, if_true]

variable (hmajor : ':' ∉ major) (hminor : ':' ∉ minor)
include hmajor hminor

theorem split_version (readId : Bool)
    (h : data.chars = service ++ ':' :: instance_ ++ ':' :: major ++ ':' :: minor) :
    splitValue data readId =
      some (some { itsServiceStr := service
                   itsInstanceStr := instance_
                   itsMajorStr := major
                   itsMinorStr := minor }) := by
  have hsplit' : data.chars = service ++ ':' :: instance_ ++ ':' :: (major ++ ':' :: minor) := by
    rw [h, List.append_assoc (service ++ ':' :: instance_), List.cons_append]
  have hsplit : data.chars = service ++ ':' :: (instance_ ++ ':' :: (major ++ ':' :: minor)) := by
    rw [hsplit', List.append_assoc, List.cons_append]
  have hfirst := find_first hsplit hservice
  have hfield := field_between hsplit' hinstance
  have hfield' := field_between h hmajor
  have hlast := field_last h hminor
  unfold splitValue
  simp only [hfirst, hfield, hfield', hlast, substr_first hsplit, found_ne hsplit, found_ne h,
    bind, pure, Option.bind_some, if_false, ne_eq, not_true, not_false_eq_true, if_true]

theorem split_full (readId : Bool)
    (h : data.chars = service ++ ':' :: instance_ ++ ':' :: major ++ ':' :: minor ++ ':' :: id) :
    splitValue data readId =
      some (some { itsServiceStr := service
                   itsInstanceStr := instance_
                   itsMajorStr := major
                   itsMinorStr := minor
                   itsIdStr := id }) := by
  have hsplit'' : data.chars =
      service ++ ':' :: instance_ ++ ':' :: major ++ ':' :: (minor ++ ':' :: id) := by
    rw [h, List.append_assoc (service ++ ':' :: instance_ ++ ':' :: major), List.cons_append]
  have hsplit' : data.chars =
      service ++ ':' :: instance_ ++ ':' :: (major ++ ':' :: (minor ++ ':' :: id)) := by
    rw [hsplit'', List.append_assoc (service ++ ':' :: instance_), List.cons_append]
  have hsplit : data.chars =
      service ++ ':' :: (instance_ ++ ':' :: (major ++ ':' :: (minor ++ ':' :: id))) := by
    rw [hsplit', List.append_assoc, List.cons_append]
  have hfirst := find_first hsplit hservice
  have hfield := field_between hsplit' hinstance
  have hfield' := field_between hsplit'' hmajor
  have hfield'' := field_between h hminor
  have hlast : id.take npos = id := by
    have hshort := data.short
    rw [h, List.length_append, List.length_cons] at hshort
    exact List.take_of_length_le (by omega)
  unfold splitValue
  simp only [hfirst, hfield, hfield', hfield'', substr_behind h, hlast, substr_first hsplit,
    found_ne hsplit, found_ne hsplit'', found_ne h, bind, pure, Option.bind_some, if_false, ne_eq,
    not_false_eq_true, if_true]

end Shapes

/-- A number that is written in decimal, or in hexadecimal with `0x` in front. -/
def Spells (text : List Char) (value : ℕ) : Prop :=
  Digits .dec text value ∨ ∃ digits, text = '0' :: 'x' :: digits ∧ Digits .hex digits value

structure Part (w : ℕ) where
  text : List Char
  value : BitVec w
  spelled : Spells text value.toNat

structure Fields where
  service : Part 16
  instance_ : Part 16
  version : Option (Part 8 × Part 32)
  id : Option (Part 16)

def Fields.text (fields : Fields) : List Char :=
  let place := fields.service.text ++ ':' :: fields.instance_.text
  match fields.version, fields.id with
  | none, none => place
  | none, some id => place ++ ':' :: id.text
  | some (major, minor), none => place ++ ':' :: major.text ++ ':' :: minor.text
  | some (major, minor), some id =>
    place ++ ':' :: major.text ++ ':' :: minor.text ++ ':' :: id.text

structure Entry extends Fields where
  short : toFields.text.length < npos

namespace Entry

def data (entry : Entry) : Text := ⟨entry.text, entry.short⟩

def address (entry : Entry) : Address where
  service := entry.service.value
  instance_ := entry.instance_.value
  majorVersion := entry.version.elim 1 fun version => version.1.value
  minorVersion := entry.version.elim 0 fun version => version.2.value

def idValue (entry : Entry) : BitVec 16 := entry.id.elim 0xFFFF Part.value

/-- There is a third field, or the service reads as the major version 1 and the instance as 0. -/
def Separable (entry : Entry) : Prop :=
  entry.version.isSome ∨ entry.id.isSome ∨
    (entry.service.value.toNat % 256 = 1 ∧ entry.instance_.value = 0)

instance (entry : Entry) : Decidable entry.Separable := inferInstanceAs (Decidable (_ ∨ _))

end Entry

section Reading
variable {text : List Char} {value : ℕ}

theorem Spells.scan (h : Spells text value) :
    NumberExtraction.scan (baseOf text) text = some ⟨false, value⟩ := by
  rcases h with hdec | ⟨digits, rfl, hhex⟩
  · have hbase : baseOf text = .dec := by
      unfold baseOf
      rw [if_neg]
      intro hprefix
      rcases List.isPrefixOf_iff_prefix.1 hprefix with ⟨rest, rfl⟩
      rcases hdec.mem (List.mem_append_left rest (by decide : 'x' ∈ ['0', 'x'])) with ⟨d, hd⟩
      cases hd
    rw [hbase]
    exact scan_dec hdec
  · exact scan_hex hhex

theorem Spells.no_colon (h : Spells text value) : ':' ∉ text := by
  have hdigit : ∀ base d, digit base ':' ≠ some d := by
    intro base d hd
    cases base <;> cases hd
  intro hc
  rcases h with hdec | ⟨digits, rfl, hhex⟩
  · rcases hdec.mem hc with ⟨d, hd⟩
    exact hdigit _ _ hd
  · have hmem : ':' ∈ digits := by simpa using hc
    rcases hhex.mem hmem with ⟨d, hd⟩
    exact hdigit _ _ hd

theorem Part.no_colon {w : ℕ} (part : Part w) : ':' ∉ part.text := part.spelled.no_colon

theorem Part.readWide {w : ℕ} (part : Part w) {v : ℕ} (hw : w ≤ v) (old : BitVec v) :
    Configuration.readUnsigned part.text old = part.value.setWidth v := by
  have hfits : part.value.toNat < 2 ^ v :=
    part.value.isLt.trans_le (Nat.pow_le_pow_right (by omega) hw)
  have hread := extractUnsigned_scan part.spelled.scan hfits old
  unfold Configuration.readUnsigned
  rw [hread, BitVec.ofNat_toNat]

theorem Part.readUnsigned {w : ℕ} (part : Part w) (old : BitVec w) :
    Configuration.readUnsigned part.text old = part.value := by
  rw [part.readWide le_rfl old, BitVec.setWidth_eq]

theorem Part.readMajor {w : ℕ} (part : Part w) (hw : w < 32) :
    readMajor part.text = part.value.setWidth 8 := by
  have hfits : part.value.toNat < 2 ^ (32 - 1) :=
    part.value.isLt.trans_le (Nat.pow_le_pow_right (by omega) (by omega))
  have hread := extractSigned_scan part.spelled.scan hfits (0 : BitVec 32)
  unfold Configuration.readMajor
  rw [hread, BitVec.ofNat_toNat, BitVec.setWidth_setWidth_of_le _ (by omega)]

end Reading

theorem readMajor_default : readMajor ['1'] = 1 := rfl

theorem readMinor_default : readUnsigned ['0'] (0 : MinorVersion) = 0 := rfl

theorem readId_default (old : BitVec 16) : readUnsigned ['0', 'x', 'F', 'F', 'F', 'F'] old = 0xFFFF :=
  rfl

theorem readValue_parts {data : Text} {readId : Bool} {parts : Parts}
    (h : splitValue data readId = some (some parts)) (address : Address) (id : BitVec 16) :
    readValue data address id readId =
      some (true, parts.address, readUnsigned parts.itsIdStr id) := by
  unfold readValue
  rw [h]
  rfl

/-- Without a third field, the service and the instance are read once more. -/
theorem readValue_short {entry : Entry} (hversion : entry.version = none) (hid : entry.id = none)
    (address : Address) (id : BitVec 16) (readId : Bool) :
    readValue entry.data address id readId =
      some (true, ⟨entry.service.value, entry.instance_.value, entry.service.value.setWidth 8,
        entry.instance_.value.setWidth 32⟩, 0xFFFF) := by
  have htext : entry.data.chars = entry.service.text ++ ':' :: entry.instance_.text := by
    change entry.toFields.text = _
    unfold Fields.text
    rw [hversion, hid]
  rw [readValue_parts
    (split_short entry.service.no_colon entry.instance_.no_colon readId htext) address id]
  unfold Parts.address
  rw [entry.service.readUnsigned, entry.instance_.readUnsigned,
    entry.service.readMajor (by decide), entry.instance_.readWide (by decide), readId_default]

theorem short_exact {entry : Entry} (hversion : entry.version = none) (hid : entry.id = none) :
    (⟨entry.service.value, entry.instance_.value, entry.service.value.setWidth 8,
        entry.instance_.value.setWidth 32⟩ : Address) = entry.address ↔ entry.Separable := by
  unfold Entry.address Entry.Separable
  rw [hversion, hid]
  simp only [Address.mk.injEq, true_and, Option.elim_none, Option.isSome_none, Bool.false_eq_true,
    false_or, ← BitVec.toNat_inj, BitVec.toNat_setWidth]
  have hinstance := entry.instance_.value.isLt
  refine and_congr Iff.rfl ?_
  rw [Nat.mod_eq_of_lt (by omega)]
  rfl

theorem readValue_long {entry : Entry} {readId : Bool}
    (hthird : entry.version.isSome ∨ entry.id.isSome)
    (hid : entry.version = none → entry.id.isSome → readId = true)
    (address : Address) (id : BitVec 16) :
    readValue entry.data address id readId = some (true, entry.address, entry.idValue) := by
  have htext : entry.data.chars = entry.toFields.text := rfl
  unfold Fields.text at htext
  unfold Entry.address Entry.idValue
  have hservice := entry.service.no_colon
  have hinstance := entry.instance_.no_colon
  cases hversion : entry.version with
  | none =>
    rw [hversion] at hthird hid htext
    cases hpart : entry.id with
    | none =>
      rw [hpart] at hthird
      simp at hthird
    | some part =>
      rw [hpart] at htext hid
      cases hid rfl rfl
      rw [readValue_parts (split_id hservice hinstance part.no_colon htext) address id]
      unfold Parts.address
      rw [entry.service.readUnsigned, entry.instance_.readUnsigned, readMajor_default,
        readMinor_default, part.readUnsigned]
      rfl
  | some version =>
    rcases version with ⟨major, minor⟩
    rw [hversion] at htext
    cases hpart : entry.id with
    | none =>
      rw [hpart] at htext
      rw [readValue_parts (split_version hservice hinstance major.no_colon minor.no_colon readId
        htext) address id]
      unfold Parts.address
      rw [entry.service.readUnsigned, entry.instance_.readUnsigned, major.readMajor (by decide),
        minor.readUnsigned, readId_default, BitVec.setWidth_eq]
      rfl
    | some part =>
      rw [hpart] at htext
      rw [readValue_parts (split_full hservice hinstance major.no_colon minor.no_colon readId
        htext) address id]
      unfold Parts.address
      rw [entry.service.readUnsigned, entry.instance_.readUnsigned, major.readMajor (by decide),
        minor.readUnsigned, part.readUnsigned, BitVec.setWidth_eq]
      rfl

theorem readValue_refused {data : Text} (h : ':' ∉ data.chars) (address : Address) (id : BitVec 16)
    (readId : Bool) : readValue data address id readId = some (false, address, id) := by
  unfold readValue splitValue
  simp only [find_nothing h, if_true, bind, pure, Option.bind_some]

/-- An entry is read as it is written exactly if it has a third field or happens to be separable,
    and a text without a colon is refused. -/
theorem readValue_exact (entry : Entry) (address : Address) (id : BitVec 16) (readId : Bool)
    (hid : entry.version = none → entry.id.isSome → readId = true) :
    (readValue entry.data address id readId = some (true, entry.address, entry.idValue) ↔
      entry.Separable) ∧
    ∀ data : Text, ':' ∉ data.chars →
      readValue data address id readId = some (false, address, id) := by
  refine ⟨?_, fun data h => readValue_refused h address id readId⟩
  by_cases hthird : entry.version.isSome ∨ entry.id.isSome
  · exact iff_of_true (readValue_long hthird hid address id)
      (hthird.elim Or.inl fun h => Or.inr (Or.inl h))
  · simp only [not_or, Option.not_isSome_iff_eq_none] at hthird
    rw [readValue_short hthird.1 hthird.2, ← short_exact hthird.1 hthird.2]
    unfold Entry.idValue
    rw [hthird.2]
    simp only [Option.some.injEq, Prod.mk.injEq, true_and, Option.elim_none, and_true]

def samplePart : Part 16 where
  text := ['0', 'x', '1', '2', '3', '4']
  value := 0x1234
  spelled := Or.inr ⟨['1', '2', '3', '4'], rfl, nofun, [1, 2, 3, 4], rfl, rfl⟩

theorem readValue_exact_id :
    (readValue (Entry.data ⟨⟨samplePart, samplePart, none, some samplePart⟩, by decide⟩)
        ⟨0, 0, 0, 0⟩ 0 true = some (true, ⟨0x1234, 0x1234, 1, 0⟩, 0x1234) ↔
      Entry.Separable ⟨⟨samplePart, samplePart, none, some samplePart⟩, by decide⟩) ∧
    ∀ data : Text, ':' ∉ data.chars →
      readValue data ⟨0, 0, 0, 0⟩ 0 true = some (false, ⟨0, 0, 0, 0⟩, 0) :=
  readValue_exact ⟨⟨samplePart, samplePart, none, some samplePart⟩, by decide⟩ ⟨0, 0, 0, 0⟩ 0 true
    fun _ _ => rfl

/-- `0x1234:0x1234` has the major version 0x34 and the minor version 0x1234. -/
theorem readValue_not_exact :
    ¬ ∀ (entry : Entry) (address : Address) (id : BitVec 16) (readId : Bool),
      (entry.version = none → entry.id.isSome → readId = true) →
      readValue entry.data address id readId = some (true, entry.address, entry.idValue) := by
  intro h
  have happly := h ⟨⟨samplePart, samplePart, none, none⟩, by decide⟩ ⟨0, 0, 0, 0⟩ 0 false nofun
  exact absurd happly (by decide)

end SomeIPRuntime.Configuration
