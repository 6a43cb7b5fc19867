import SomeIPRuntime.ExtendedStructs

set_option autoImplicit false

namespace SomeIPRuntime.RoundTrip
open Bits ProgramRuns Deployment
open InputStream (Consistent Read Taken)
open OutputStream (Clean Write WriteOp Wrote)

inductive Member (κ : Type)
  | plain (kind : κ)
  | pointer

mutual

inductive Pointer (κ L : Type)
  | null
  | object (serial : BitVec 32) (members : Members κ L)

inductive Members (κ L : Type)
  | nil
  | plain (kind : κ) (value : L) (rest : Members κ L)
  | pointer (member : Pointer κ L) (rest : Members κ L)

end

structure Codecs (κ L : Type) where
  write : κ → L → Write Unit
  read : κ → Read L

section Pointers
variable {κ L : Type} (codecs : Codecs κ L) (create : BitVec 32 → Option (List (Member κ)))

def Members.types : Members κ L → List (Member κ)
  | .nil => []
  | .plain kind _ rest => .plain kind :: rest.types
  | .pointer _ rest => .pointer :: rest.types

mutual

def writePointer : Pointer κ L → Write Unit
  | .null => OutputStream.writePolymorphicStruct none
  | .object serial members => OutputStream.writePolymorphicStruct (some (serial, writeMembers members))

def writeMembers : Members κ L → Write Unit
  | .nil => pure ()
  | .plain kind value rest => do
    codecs.write kind value
    writeMembers rest
  | .pointer member rest => do
    writePointer member
    writeMembers rest

end

def readMembers (inner : Read (Pointer κ L)) : List (Member κ) → Read (Members κ L)
  | [] => pure .nil
  | .plain kind :: rest => do
    let value ← codecs.read kind
    let members ← readMembers inner rest
    pure (.plain kind value members)
  | .pointer :: rest => do
    let member ← inner
    let members ← readMembers inner rest
    pure (.pointer member members)

def readObject (inner : Read (Pointer κ L)) (serial : BitVec 32) : Read (Pointer κ L) :=
  match create serial with
  | some types => Pointer.object serial <$> readMembers codecs inner types
  | none => throw .outOfBounds

/-- `depth` bounds the nesting. The pointer stays null where its serial number cannot be read. -/
def readPointer : ℕ → Read (Pointer κ L)
  | 0 => throw .outOfFuel
  | depth + 1 =>
    (fun object => object.getD .null) <$>
      InputStream.readPolymorphicStruct (readObject codecs create (readPointer depth))

mutual

/-- What the receiver creates for a serial number has the members of the object, and the plain
    members round-trip. -/
def Pointer.Typed : Pointer κ L → Prop
  | .null => True
  | .object serial members => (∀ types, create serial = some types → types = members.types) ∧ members.Typed

def Members.Typed : Members κ L → Prop
  | .nil => True
  | .plain kind value rest =>
    RoundTrips (codecs.write kind value) (codecs.read kind) value ∧ rest.Typed
  | .pointer member rest => member.Typed ∧ rest.Typed

end

mutual

/-- There is no null pointer at any depth, and no type that the receiver does not know. -/
def Pointer.Restorable : Pointer κ L → Prop
  | .null => False
  | .object serial members => (create serial).isSome = true ∧ members.Restorable

def Members.Restorable : Members κ L → Prop
  | .nil => True
  | .plain _ _ rest => rest.Restorable
  | .pointer member rest => member.Restorable ∧ rest.Restorable

end

mutual

def Pointer.height : Pointer κ L → ℕ
  | .null => 1
  | .object _ members => members.height + 1

def Members.height : Members κ L → ℕ
  | .nil => 0
  | .plain _ _ rest => rest.height
  | .pointer member rest => max member.height rest.height

end

end Pointers

section Fields
variable {α β γ : Type} {first rest : Write Unit} {readFirst : Read α} {readRest : Read β} {a : α} {b : β}
  {o t : OutputStream} {s : InputStream}

/-- The first of two writes, without an error where the second ends without one. -/
theorem fields_written (hfirst : WriteOp first) (hrest : WriteOp rest) (ho : Clean o)
    (hrun : (do
      first
      rest : Write Unit) o = .ok ⟨⟩ t) (herror : t.errorOccurred = false) :
    ∃ m, first o = .ok ⟨⟩ m ∧ m.errorOccurred = false ∧ Clean m ∧ rest m = .ok ⟨⟩ t ∧
      (t.payload.length < 2 ^ 32 → o.bits <+: m.bits) ∧
      (t.payload.length < 2 ^ 32 → m.bits <+: t.bits) ∧ Clean t := by
  rcases bind_eq_ok.1 hrun with ⟨_, m, hm, ht⟩
  rcases hfirst.writer.ok hm ho with ⟨_, _, hom⟩
  rcases hrest.writer.ok ht hom.clean with ⟨_, _, hmt⟩
  have hlength := hmt.length
  exact ⟨m, hm, quiet_before hmt herror, hom.clean, ht, fun h => hom.bits (hlength.trans_lt h),
    hmt.bits, hmt.clean⟩

theorem fields_roundTrips (f : α → β → γ) (hfirst : RoundTrips first readFirst a)
    (hrest : RoundTrips rest readRest b) :
    RoundTrips (do
        first
        rest)
      (do
        let x ← readFirst
        let y ← readRest
        pure (f x y)) (f a b) where
  writes := .fields hfirst.writes hrest.writes
  reads o ho t s hrun herror hs := by
    rcases fields_written hfirst.writes hrest.writes ho hrun herror with
      ⟨m, hm, hquiet, hclean, ht, hbits, hbits', htclean⟩
    have hshort := hs.short htclean
    rcases hfirst.reads o ho m s hm hquiet (hs.first (hbits hshort) (hbits' hshort)) with ⟨u, hread, hu⟩
    rcases hrest.reads m hclean t u ht herror (hs.rest (hbits hshort) (hbits' hshort) hu) with
      ⟨v, hread', hv⟩
    refine ⟨v, ?_, hu.trans hv⟩
    rw [bind_ok hread, bind_ok hread']
    rfl

end Fields

section Objects
variable {κ L : Type} {codecs : Codecs κ L} {create : BitVec 32 → Option (List (Member κ))}
  {o t : OutputStream} {s : InputStream}

theorem object_written {serial : BitVec 32} {fields : Write Unit} (hfields : WriteOp fields)
    (ho : Clean o) (hrun : OutputStream.writePolymorphicStruct (some (serial, fields)) o = .ok ⟨⟩ t)
    (herror : t.errorOccurred = false) :
    ∃ m, OutputStream.writeInteger uint32 none serial (OutputStream.aligned o) = .ok ⟨⟩ m ∧
      m.errorOccurred = false ∧ Clean m ∧ fields m = .ok ⟨⟩ t ∧
      (t.payload.length < 2 ^ 32 → (OutputStream.aligned o).bits <+: m.bits) ∧
      (t.payload.length < 2 ^ 32 → m.bits <+: t.bits) ∧ Clean t := by
  have halign := (OutputStream.aligned_appends ho).clean
  change (OutputStream.bitAlign >>= _) o = _ at hrun
  rw [bind_ok (OutputStream.bitAlign_run o)] at hrun
  rcases bind_eq_ok.1 hrun with ⟨_, m, hm, ht⟩
  rw [OutputStream.unlessError_run] at ht
  rcases (WriteOp.integer uint32 none serial).writer.ok hm halign with ⟨_, _, hom⟩
  split at ht
  · rename_i hbad
    cases ht
    cases herror.symm.trans hbad
  · rcases hfields.writer.ok ht hom.clean with ⟨_, _, hmt⟩
    have hlength := hmt.length
    exact ⟨m, hm, by simpa using ‹¬ m.errorOccurred = true›, hom.clean, ht,
      fun h => hom.bits (hlength.trans_lt h), hmt.bits, hmt.clean⟩

theorem object_reached {serial : BitVec 32} {fields : Write Unit} (hfields : WriteOp fields)
    (ho : Clean o) (hrun : OutputStream.writePolymorphicStruct (some (serial, fields)) o = .ok ⟨⟩ t)
    (herror : t.errorOccurred = false) (hs : Receives s o t) :
    ∃ m u, fields m = .ok ⟨⟩ t ∧ Clean m ∧ o.bits <+: m.bits ∧ m.bits <+: t.bits ∧
      InputStream.assignBits 4 32 false id none (InputStream.aligned s) = .ok serial u ∧
      u.errorOccurred = false ∧ Arrived s u m ∧ Receives u m t := by
  rcases object_written hfields ho hrun herror with ⟨m, hm, hquiet, hclean, ht, hbits, hbits', htclean⟩
  have halign := OutputStream.aligned_appends ho
  have hshort := hs.short htclean
  have hstart := hs.aligned ho ((hbits hshort).trans (hbits' hshort))
  rcases faces_aligned hs.faces ho with ⟨_, hmessage, _⟩
  rcases (integer_roundTrips uint32 (by decide) serial).reads _ halign.clean m _ hm hquiet
    (hstart.first (hbits hshort) (hbits' hshort)) with ⟨u, hread, hu⟩
  exact ⟨m, u, ht, hclean, halign.earlier.trans (hbits hshort), hbits' hshort, hread, hu.errorOccurred,
    ⟨hu.faces, hu.message.trans hmessage, hu.errorOccurred⟩,
    hstart.rest (hbits hshort) (hbits' hshort) hu⟩

theorem readObject_known {inner : Read (Pointer κ L)} {serial : BitVec 32} {types : List (Member κ)}
    (h : create serial = some types) :
    readObject codecs create inner serial = Pointer.object serial <$> readMembers codecs inner types := by
  rw [readObject, h]

theorem readObject_unknown {inner : Read (Pointer κ L)} {serial : BitVec 32}
    (h : create serial = none) : readObject codecs create inner serial = throw .outOfBounds := by
  rw [readObject, h]

theorem readPointer_run {depth : ℕ} {serial : BitVec 32} {u : InputStream}
    (hread : InputStream.assignBits 4 32 false id none (InputStream.aligned s) = .ok serial u)
    (hquiet : u.errorOccurred = false) :
    readPointer codecs create (depth + 1) s =
      readObject codecs create (readPointer codecs create depth) serial u := by
  have hstruct : InputStream.readPolymorphicStruct
      (readObject codecs create (readPointer codecs create depth)) s =
      (some <$> readObject codecs create (readPointer codecs create depth) serial) u := by
    change (InputStream.bitAlign >>= _) s = _
    rw [bind_ok (InputStream.bitAlign_run s)]
    rw [bind_ok hread]
    change (if u.errorOccurred = true then pure none else _ : Read (Option (Pointer κ L))) u = _
    rw [if_neg (hquiet ▸ Bool.false_ne_true)]
  rw [readPointer, map_run, hstruct, map_run]
  cases readObject codecs create (readPointer codecs create depth) serial u <;> rfl

end Objects

section Nesting
variable {κ L : Type} {codecs : Codecs κ L} {create : BitVec 32 → Option (List (Member κ))}

mutual

theorem pointer_writes : ∀ {pointer : Pointer κ L}, pointer.Typed codecs create →
    WriteOp (writePointer codecs pointer)
  | .null, _ => .nullStruct
  | .object serial _, htyped => .polymorphicStruct serial (members_writes htyped.2)

theorem members_writes : ∀ {members : Members κ L}, members.Typed codecs create →
    WriteOp (writeMembers codecs members)
  | .nil, _ => .noFields
  | .plain _ _ _, htyped => .fields htyped.1.writes (members_writes htyped.2)
  | .pointer _ _, htyped => .fields (pointer_writes htyped.1) (members_writes htyped.2)

end

mutual

/-- Without a null pointer at any depth, a pointer is read back. -/
theorem pointer_roundTrips : ∀ {pointer : Pointer κ L} {depth : ℕ}, pointer.Typed codecs create →
    pointer.Restorable create → pointer.height ≤ depth →
    RoundTrips (writePointer codecs pointer) (readPointer codecs create depth) pointer
  | .object serial members, 0, _, _, hdepth => by
    rw [Pointer.height] at hdepth
    omega
  | .object serial members, depth + 1, htyped, hno, hdepth => {
    writes := pointer_writes htyped
    reads := by
      intro o ho t s hrun herror hs
      rw [Pointer.height] at hdepth
      rw [writePointer] at hrun
      rcases object_reached (members_writes htyped.2) ho hrun herror hs with
        ⟨m, u, ht, hclean, _, _, hread, hquiet, hsu, hu⟩
      rcases (members_roundTrips htyped.2 hno.2 (Nat.le_of_succ_le_succ hdepth)).reads m hclean t u ht
        herror hu with ⟨v, hmembers, hv⟩
      rcases Option.isSome_iff_exists.1 hno.1 with ⟨types, hcreate⟩
      refine ⟨v, ?_, hsu.trans hv⟩
      cases htyped.1 types hcreate
      rw [readPointer_run hread hquiet, readObject_known hcreate]
      exact map_eq_ok.2 ⟨members, hmembers, rfl⟩ }

theorem members_roundTrips : ∀ {members : Members κ L} {depth : ℕ}, members.Typed codecs create →
    members.Restorable create → members.height ≤ depth →
    RoundTrips (writeMembers codecs members)
      (readMembers codecs (readPointer codecs create depth) members.types) members
  | .nil, _, _, _, _ => {
    writes := .noFields
    reads := by
      intro o _ t s hrun _ hs
      cases hrun
      exact ⟨s, rfl, hs.faces, rfl, hs.errorOccurred⟩ }
  | .plain _ _ _, _, htyped, hno, hdepth =>
    fields_roundTrips _ htyped.1 (members_roundTrips htyped.2 hno hdepth)
  | .pointer _ _, _, htyped, hno, hdepth =>
    fields_roundTrips _ (pointer_roundTrips htyped.1 hno.1 ((Nat.le_max_left _ _).trans hdepth))
      (members_roundTrips htyped.2 hno.2 ((Nat.le_max_right _ _).trans hdepth))

end

end Nesting

section Nulls
variable {κ L : Type} {codecs : Codecs κ L} {create : BitVec 32 → Option (List (Member κ))}

structure Roomy (s : InputStream) (o t : OutputStream) : Prop where
  receives : Receives s o t
  more : ∃ more : List Bool, 32 ≤ more.length ∧ Ahead s (t.bits.drop o.bits.length ++ more)

theorem Roomy.first {s : InputStream} {o m t : OutputStream} (h : Roomy s o t)
    (hom : o.bits <+: m.bits) (hmt : m.bits <+: t.bits) : Roomy s o m := by
  rcases h.more with ⟨more, hlength, hahead⟩
  refine ⟨h.receives.first hom hmt, t.bits.drop m.bits.length ++ more, ?_, ?_⟩
  · rw [List.length_append]
    omega
  · rw [drop_extends hom hmt, List.append_assoc] at hahead
    exact hahead

theorem Roomy.rest {s u : InputStream} {o m t : OutputStream} (h : Roomy s o t)
    (hom : o.bits <+: m.bits) (hmt : m.bits <+: t.bits) (hu : Arrived s u m) : Roomy u m t := by
  rcases h.more with ⟨more, hlength, hahead⟩
  refine ⟨h.receives.rest hom hmt hu, more, hlength, ?_⟩
  rw [drop_extends hom hmt, List.append_assoc] at hahead
  refine hahead.rest ?_ hu.message
  have hle := hom.length_le
  rw [hu.faces.position, h.receives.faces.position, List.length_drop]
  omega

theorem readPointer_ne_null {depth : ℕ} {serial : BitVec 32} {s u v : InputStream}
    (hread : InputStream.assignBits 4 32 false id none (InputStream.aligned s) = .ok serial u)
    (hquiet : u.errorOccurred = false) :
    readPointer codecs create (depth + 1) s ≠ .ok .null v := by
  rw [readPointer_run hread hquiet]
  intro h
  cases hcreate : create serial with
  | none =>
    rw [readObject_unknown hcreate] at h
    cases h
  | some types =>
    rw [readObject_known hcreate] at h
    rcases map_eq_ok.1 h with ⟨_, _, hnull⟩
    cases hnull

theorem null_lost {depth : ℕ} {s u : InputStream} {o t : OutputStream} (ho : Clean o)
    (hrun : writePointer codecs .null o = .ok ⟨⟩ t) (hs : Roomy s o t) (hdepth : 1 ≤ depth) :
    readPointer codecs create depth s ≠ .ok .null u := by
  rw [writePointer] at hrun
  have ht : OutputStream.aligned o = t := by
    cases hrun
    rfl
  subst ht
  have halign := OutputStream.aligned_appends ho
  rcases faces_aligned hs.receives.faces ho with ⟨hfaces, hmessage, hquiet⟩
  have hstart := hs.rest halign.earlier List.prefix_rfl
    ⟨hfaces, hmessage, hquiet.trans hs.receives.errorOccurred⟩
  rcases hstart.more with ⟨more, hlength, hahead⟩
  rw [List.drop_length, List.nil_append] at hahead
  have hserial : (more.take 32).length = 32 := by
    rw [List.length_take]
    omega
  rcases assignBits_ahead hfaces.consistent ((List.take_prefix 32 more).trans hahead) 4 32 false id none
    rfl hserial (by decide) with ⟨v, hread, _, hv⟩
  rcases Nat.exists_eq_succ_of_ne_zero (show depth ≠ 0 by omega) with ⟨depth, rfl⟩
  exact readPointer_ne_null hread hv

mutual

/-- A pointer with a null pointer at some depth is not read back in front of other data. -/
theorem pointer_lost : ∀ {pointer : Pointer κ L} {depth : ℕ}, pointer.Typed codecs create →
    ¬ pointer.Restorable create → pointer.height ≤ depth → ∀ {o t : OutputStream} {s u : InputStream}, Clean o →
    writePointer codecs pointer o = .ok ⟨⟩ t → t.errorOccurred = false → Roomy s o t →
    readPointer codecs create depth s ≠ .ok pointer u
  | .null, _, _, _, hdepth, _, _, _, _, ho, hrun, _, hs => null_lost ho hrun hs hdepth
  | .object _ _, 0, _, _, hdepth, _, _, _, _, _, _, _, _ => by
    rw [Pointer.height] at hdepth
    omega
  | .object serial members, depth + 1, htyped, hno, hdepth, o, t, s, u, ho, hrun, herror, hs => by
    rw [Pointer.height] at hdepth
    rw [writePointer] at hrun
    rcases object_reached (members_writes htyped.2) ho hrun herror hs.receives with
      ⟨m, v, ht, hclean, hom, hmt, hread, hquiet, hsv, hv⟩
    have hroomy : Roomy v m t := hs.rest hom hmt hsv
    rw [readPointer_run hread hquiet]
    intro h
    cases hcreate : create serial with
    | none =>
      rw [readObject_unknown hcreate] at h
      cases h
    | some types =>
      rw [readObject_known hcreate] at h
      rcases map_eq_ok.1 h with ⟨members', hmembers, heq⟩
      cases heq
      cases htyped.1 types hcreate
      have hmembers' : ¬ members.Restorable create := fun hrest => hno ⟨hcreate ▸ rfl, hrest⟩
      exact members_lost htyped.2 hmembers' (Nat.le_of_succ_le_succ hdepth) hclean ht herror hroomy
        hmembers

theorem members_lost : ∀ {members : Members κ L} {depth : ℕ}, members.Typed codecs create →
    ¬ members.Restorable create → members.height ≤ depth → ∀ {o t : OutputStream} {s u : InputStream}, Clean o →
    writeMembers codecs members o = .ok ⟨⟩ t → t.errorOccurred = false → Roomy s o t →
    readMembers codecs (readPointer codecs create depth) members.types s ≠ .ok members u
  | .nil, _, _, hno, _, _, _, _, _, _, _, _, _ => absurd trivial hno
  | .plain kind value rest, depth, htyped, hno, hdepth, o, t, s, u, ho, hrun, herror, hs => by
    rw [writeMembers] at hrun
    rcases fields_written htyped.1.writes (members_writes htyped.2) ho hrun herror with
      ⟨m, hm, hquiet, hclean, ht, hbits, hbits', htclean⟩
    have hshort := hs.receives.short htclean
    have hfirst := hs.receives.first (hbits hshort) (hbits' hshort)
    rcases htyped.1.reads o ho m s hm hquiet hfirst with ⟨v, hread, hv⟩
    have hroomy : Roomy v m t := hs.rest (hbits hshort) (hbits' hshort) hv
    rw [Members.types, readMembers, bind_ok hread]
    intro h
    rcases bind_eq_ok.1 h with ⟨members', w, hmembers, heq⟩
    cases heq
    exact members_lost htyped.2 hno hdepth hclean ht herror hroomy hmembers
  | .pointer member rest, depth, htyped, hno, hdepth, o, t, s, u, ho, hrun, herror, hs => by
    rw [writeMembers] at hrun
    rw [Members.height] at hdepth
    rcases fields_written (pointer_writes htyped.1) (members_writes htyped.2) ho hrun herror with
      ⟨m, hm, hquiet, hclean, ht, hbits, hbits', htclean⟩
    have hshort := hs.receives.short htclean
    have hmember : member.height ≤ depth := (Nat.le_max_left _ _).trans hdepth
    have hrest : rest.height ≤ depth := (Nat.le_max_right _ _).trans hdepth
    rw [Members.types, readMembers]
    intro h
    rcases bind_eq_ok.1 h with ⟨member', v, hread, h⟩
    rcases bind_eq_ok.1 h with ⟨members', w, hmembers, heq⟩
    cases heq
    by_cases hnull : member.Restorable create
    · rcases (pointer_roundTrips htyped.1 hnull hmember).reads o ho m s hm hquiet
        (hs.receives.first (hbits hshort) (hbits' hshort)) with ⟨v', hread', hv⟩
      cases hread.symm.trans hread'
      exact members_lost htyped.2 (fun hno' => hno ⟨hnull, hno'⟩) hrest hclean ht herror
        (hs.rest (hbits hshort) (hbits' hshort) hv) hmembers
    · exact pointer_lost htyped.1 hnull hmember ho hm hquiet
        (hs.first (hbits hshort) (hbits' hshort)) hread

end

/-- There is a message in which zeros follow what has been written. -/
theorem roomy_exists {o t : OutputStream} (ht : Clean t) (hpre : o.bits <+: t.bits)
    (hshort : (OutputStream.aligned t).payload.length + 4 < 2 ^ 32) : ∃ s, Roomy s o t := by
  have hfits : ((OutputStream.aligned t).payload ++ List.replicate 4 (0 : Byte)).length < 2 ^ 32 := by
    rw [List.length_append, List.length_replicate]
    exact hshort
  let message : Message := ⟨(OutputStream.aligned t).payload ++ List.replicate 4 (0 : Byte), hfits⟩
  have hbody : bitsOf message.body =
      t.bits ++ (OutputStream.padding t ++ bitsOf (List.replicate 4 (0 : Byte))) := by
    rw [bitsOf_append, aligned_bits ht, List.append_assoc]
  have hcarries : Carries message t := by
    unfold Carries
    rw [hbody]
    exact List.prefix_append _ _
  rcases facing_exists (hcarries.earlier hpre) with ⟨s, hmessage, hs, herror⟩
  have hahead : Ahead s (t.bits.drop o.bits.length ++
      (OutputStream.padding t ++ bitsOf (List.replicate 4 (0 : Byte)))) := by
    unfold Ahead
    rw [hmessage, hs.position, hbody, List.drop_append_of_le_length hpre.length_le]
  refine ⟨s, ⟨hs, herror, (List.prefix_append _ _).trans hahead⟩, _, ?_, hahead⟩
  rw [List.length_append, bitsOf_length, List.length_replicate]
  omega

/-- Written without an error, a pointer is read back in front of any other data just if it is
    restorable. -/
theorem pointer_back_iff {pointer : Pointer κ L} {depth : ℕ} {o t : OutputStream}
    (htyped : pointer.Typed codecs create) (hdepth : pointer.height ≤ depth) (ho : Clean o)
    (hrun : writePointer codecs pointer o = .ok ⟨⟩ t) (herror : t.errorOccurred = false)
    (hshort : (OutputStream.aligned t).payload.length + 4 < 2 ^ 32) :
    ReadInFront (readPointer codecs create depth) pointer o t ↔ pointer.Restorable create := by
  rcases (pointer_writes htyped).writer.ok hrun ho with ⟨_, _, hot⟩
  have hlonger := aligned_longer hot.clean
  have hpre : o.bits <+: t.bits := hot.bits (by omega)
  rw [readInFront_iff hot.clean (fun _ => hpre) herror]
  constructor
  · intro h
    by_contra hno
    rcases roomy_exists hot.clean hpre hshort with ⟨s, hs⟩
    rcases h s hs.receives with ⟨u, hread, _⟩
    exact pointer_lost htyped hno hdepth ho hrun herror hs hread
  · intro h s hs
    exact (pointer_roundTrips htyped h hdepth).reads o ho t s hrun herror hs

end Nulls

structure AtByte (s : InputStream) : Prop where
  consistent : Consistent s
  bit : s.currentBit = 0

/-- From the start of a byte, a value is read, up to the start of a byte. -/
def Steady {α : Type} (read : Read α) : Prop :=
  ∀ s, AtByte s → ∃ a u, read s = .ok a u ∧ AtByte u ∧ u.remaining ≤ s.remaining

def Serial (s : InputStream) (serial : BitVec 32) (u : InputStream) : Prop :=
  InputStream.assignBits 4 32 false id none (InputStream.aligned s) = .ok serial u ∧
    u.errorOccurred = false

def Cut (s u : InputStream) : Prop :=
  ∃ serial, InputStream.assignBits 4 32 false id none (InputStream.aligned s) = .ok serial u ∧
    u.errorOccurred = true

section Payloads
variable {κ L : Type} (codecs : Codecs κ L) (create : BitVec 32 → Option (List (Member κ)))

mutual

inductive Spans : InputStream → InputStream → Prop
  | cut {s u : InputStream} (h : Cut s u) : Spans s u
  | object {s u v : InputStream} {serial : BitVec 32} {types : List (Member κ)} (h : Serial s serial u)
      (hcreate : create serial = some types) (hmembers : SpansMembers types u v) : Spans s v

inductive SpansMembers : List (Member κ) → InputStream → InputStream → Prop
  | nil {s : InputStream} : SpansMembers [] s s
  | plain {s u v : InputStream} {kind : κ} {rest : List (Member κ)} {value : L}
      (h : codecs.read kind s = .ok value u) (hrest : SpansMembers rest u v) :
      SpansMembers (.plain kind :: rest) s v
  | pointer {s u v : InputStream} {rest : List (Member κ)} (h : Spans s u)
      (hrest : SpansMembers rest u v) : SpansMembers (.pointer :: rest) s v

end

mutual

/-- The serial numbers that the receiver comes to. -/
inductive Meets : InputStream → BitVec 32 → Prop
  | first {s u : InputStream} {serial : BitVec 32} (h : Serial s serial u) : Meets s serial
  | inside {s u : InputStream} {serial other : BitVec 32} {types : List (Member κ)}
      (h : Serial s serial u) (hcreate : create serial = some types)
      (hmembers : MeetsMembers types u other) : Meets s other

inductive MeetsMembers : List (Member κ) → InputStream → BitVec 32 → Prop
  | plain {s u : InputStream} {kind : κ} {rest : List (Member κ)} {value : L} {serial : BitVec 32}
      (h : codecs.read kind s = .ok value u) (hrest : MeetsMembers rest u serial) :
      MeetsMembers (.plain kind :: rest) s serial
  | pointer {s : InputStream} {rest : List (Member κ)} {serial : BitVec 32} (h : Meets s serial) :
      MeetsMembers (.pointer :: rest) s serial
  | behind {s u : InputStream} {rest : List (Member κ)} {serial : BitVec 32} (h : Spans codecs create s u)
      (hrest : MeetsMembers rest u serial) : MeetsMembers (.pointer :: rest) s serial

end

end Payloads

section Safety
variable {κ L : Type} {codecs : Codecs κ L} {create : BitVec 32 → Option (List (Member κ))}
  {s u : InputStream}

/-- A scalar of whole bytes at the start of a byte: there are not enough bytes, or it is read. -/
theorem assignBits_whole {m : InputStream} (hm : AtByte m) (size bits : ℕ)
    (hclamp : clampBits size bits = 8 * size) {β : Type} (isSigned : Bool) (cast : BitVec (8 * size) → β) :
    ∃ a u, InputStream.assignBits size bits isSigned cast none m = .ok a u ∧ AtByte u ∧
      u.remaining = (if u.errorOccurred = true then m.remaining else m.remaining - size) ∧
      (u.errorOccurred = false → size ≤ m.remaining) := by
  have hrun := InputStream.assignBits_run size bits isSigned cast none m
  have hlog : Consistent (InputStream.logged (.assign (8 * size) (none : Option β).isSome) m) :=
    InputStream.logged_consistent hm.consistent
  have hbit := hm.bit
  have hin := hm.consistent.inside
  rw [hclamp] at hrun
  rcases InputStream.readField_cases hlog.sound isSigned (le_refl (8 * size)) with
    ⟨_, hread⟩ | ⟨henough, _, hfit, hread⟩ | ⟨henough, hpast, _⟩
  · rw [hread] at hrun
    exact ⟨_, _, hrun, ⟨⟨hlog.bit, hlog.inside, hlog.pending⟩, hbit⟩, rfl, nofun⟩
  · rw [hread] at hrun
    have hseek := InputStream.seek_consistent (InputStream.logged (.readBits (8 * size))
      (InputStream.logged (.assign (8 * size) (none : Option β).isSome) m)) hfit
    change 8 * m.current + m.currentBit + 8 * size ≤ 8 * m.message.body.length at hfit
    refine ⟨_, _, hrun, ⟨⟨hseek.bit, hseek.inside, hseek.pending⟩, ?_⟩, ?_, fun _ => by omega⟩
    · change (8 * m.current + m.currentBit + 8 * size) % 8 = 0
      omega
    · change m.message.body.length - (8 * m.current + m.currentBit + 8 * size) / 8 = m.remaining - size
      omega
  · rw [InputStream.enough_iff] at henough
    change 8 * m.message.body.length < 8 * m.current + m.currentBit + 8 * size at hpast
    have hroom : 8 * size ≤ 8 * m.remaining := henough.2
    omega

theorem integer_steady (type : IntegerType) : Steady (InputStream.readInteger type none) := by
  intro s hs
  have hclamp : clampBits type.size (8 * type.size) = 8 * type.size := by
    rw [clampBits_eq, Nat.min_self]
  rcases assignBits_whole hs type.size (8 * type.size) hclamp type.isSigned id with ⟨a, u, hread, hbyte, hremaining, _⟩
  refine ⟨a, u, hread, hbyte, ?_⟩
  rw [hremaining]
  split
  · exact le_rfl
  · exact Nat.sub_le _ _

theorem serial_outcome (hs : Consistent s) :
    (∃ u, Cut s u ∧ AtByte u ∧ u.remaining ≤ s.remaining) ∨
      ∃ serial u, Serial s serial u ∧ AtByte u ∧ u.remaining + 4 ≤ s.remaining := by
  have halign : AtByte (InputStream.aligned s) ∧ (InputStream.aligned s).remaining ≤ s.remaining := by
    refine ⟨⟨(InputStream.aligned_consistent hs).1, InputStream.aligned_bit s⟩, ?_⟩
    have hin := hs.inside
    have hfits := s.message.fits
    unfold InputStream.aligned
    split
    · have hpos := hs.pending ‹_›
      change wrapSub 64 s.remaining 1 ≤ _
      rw [wrapSub_of_le (by omega) (by omega)]
      omega
    · exact le_rfl
  rcases assignBits_whole halign.1 4 32 (by decide) false (id : BitVec 32 → BitVec 32) with
    ⟨serial, u, hread, hbyte, hremaining, henough⟩
  cases herror : u.errorOccurred with
  | false =>
    have hroom := henough herror
    rw [herror, if_neg Bool.false_ne_true] at hremaining
    exact Or.inr ⟨serial, u, ⟨hread, herror⟩, hbyte, by omega⟩
  | true =>
    rw [herror, if_pos rfl] at hremaining
    exact Or.inl ⟨u, ⟨serial, hread, herror⟩, hbyte, hremaining.trans_le halign.2⟩

theorem serial_unique {serial serial' : BitVec 32} {v : InputStream} (h : Serial s serial u)
    (h' : Serial s serial' v) : serial = serial' ∧ u = v := by
  cases h.1.symm.trans h'.1
  exact ⟨rfl, rfl⟩

theorem cut_unique {v : InputStream} (h : Cut s u) (h' : Cut s v) : v = u := by
  rcases h with ⟨_, hread, _⟩
  rcases h' with ⟨_, hread', _⟩
  cases hread.symm.trans hread'
  rfl

theorem cut_not_serial {serial : BitVec 32} {v : InputStream} (h : Cut s u) : ¬ Serial s serial v := by
  rcases h with ⟨_, hread, hbad⟩
  rintro ⟨hread', hquiet⟩
  cases hread.symm.trans hread'
  cases hquiet.symm.trans hbad

theorem readPointer_cut {depth : ℕ} (h : Cut s u) :
    readPointer codecs create (depth + 1) s = .ok .null u := by
  rcases h with ⟨serial, hread, hbad⟩
  have hstruct : InputStream.readPolymorphicStruct
      (readObject codecs create (readPointer codecs create depth)) s = .ok none u := by
    change (InputStream.bitAlign >>= _) s = _
    rw [bind_ok (InputStream.bitAlign_run s)]
    rw [bind_ok hread]
    change (if u.errorOccurred = true then pure none else _ : Read (Option (Pointer κ L))) u = _
    rw [if_pos hbad]
    rfl
  rw [readPointer, map_run, hstruct]
  rfl

/-- The receiver knows what it comes to and reads up to where the pointer ends, or else it comes to a
    serial number that it does not know. -/
inductive Outcome (create : BitVec 32 → Option (List (Member κ))) (s : InputStream) {α : Type}
    (spans : InputStream → Prop) (meets : BitVec 32 → Prop) (read : Read α) : Prop
  | ends {a : α} {u : InputStream} (h : read s = .ok a u) (hbyte : AtByte u)
      (hremaining : u.remaining ≤ s.remaining) (hspans : spans u) (hunique : ∀ v, spans v → v = u)
      (hknown : ∀ serial, meets serial → (create serial).isSome = true)
  | stumbles {u : InputStream} {serial : BitVec 32} (h : read s = .error .outOfBounds u)
      (hmeets : meets serial) (hunknown : create serial = none)

theorem members_outcome (hplain : ∀ kind, Steady (codecs.read kind)) {inner : Read (Pointer κ L)} {n : ℕ}
    (hinner : ∀ s, AtByte s → s.remaining < n →
      Outcome create s (Spans codecs create s) (Meets codecs create s) inner) (types : List (Member κ)) :
    ∀ s, AtByte s → s.remaining < n →
      Outcome create s (SpansMembers codecs create types s) (MeetsMembers codecs create types s)
        (readMembers codecs inner types) := by
  induction types with
  | nil =>
    intro s hs _
    refine .ends (pure_run _ s) hs le_rfl .nil ?_ nofun
    intro v hv
    cases hv
    rfl
  | cons type rest ih =>
    intro s hs hn
    cases type with
    | plain kind =>
      rcases hplain kind s hs with ⟨value, u, hread, hu, hremaining⟩
      have hrun := bind_ok (f := fun value => do
        let members ← readMembers codecs inner rest
        pure (Members.plain kind value members)) hread
      cases ih u hu (hremaining.trans_lt hn) with
      | ends h hbyte hle hspans hunique hknown =>
        refine .ends (hrun.trans (bind_ok h)) hbyte (hle.trans hremaining) (.plain hread hspans) ?_ ?_
        · intro v hv
          rcases hv with _ | ⟨h', hrest⟩
          cases hread.symm.trans h'
          exact hunique v hrest
        · intro serial hmeets
          rcases hmeets with ⟨h', hrest⟩
          cases hread.symm.trans h'
          exact hknown serial hrest
      | stumbles h hmeets hunknown =>
        exact .stumbles (hrun.trans (bind_error h)) (.plain hread hmeets) hunknown
    | pointer =>
      cases hinner s hs hn with
      | ends hread hu hremaining hspans hunique hknown =>
        have hrun := bind_ok (f := fun member => do
          let members ← readMembers codecs inner rest
          pure (Members.pointer member members)) hread
        cases ih _ hu (hremaining.trans_lt hn) with
        | ends h hbyte hle hspans' hunique' hknown' =>
          refine .ends (hrun.trans (bind_ok h)) hbyte (hle.trans hremaining) (.pointer hspans hspans')
            ?_ ?_
          · intro v hv
            rcases hv with _ | _ | ⟨hmember, hrest⟩
            cases hunique _ hmember
            exact hunique' v hrest
          · intro serial hmeets
            rcases hmeets with _ | hmember | ⟨hmember, hrest⟩
            · exact hknown serial hmember
            · cases hunique _ hmember
              exact hknown' serial hrest
        | stumbles h hmeets hunknown =>
          exact .stumbles (hrun.trans (bind_error h)) (.behind hspans hmeets) hunknown
      | stumbles h hmeets hunknown =>
        exact .stumbles (bind_error h) (.pointer hmeets) hunknown

theorem pointer_outcome (create : BitVec 32 → Option (List (Member κ)))
    (hplain : ∀ kind, Steady (codecs.read kind)) {depth : ℕ} :
    ∀ {s : InputStream}, Consistent s → s.remaining < 4 * depth →
      Outcome create s (Spans codecs create s) (Meets codecs create s) (readPointer codecs create depth) := by
  induction depth with
  | zero =>
    intro s _ hdepth
    omega
  | succ depth ih =>
    intro s hs hdepth
    rcases serial_outcome hs with ⟨u, hcut, hbyte, hle⟩ | ⟨serial, u, hserial, hbyte, hle⟩
    · refine .ends (readPointer_cut hcut) hbyte hle (.cut hcut) ?_ ?_
      · rintro v (hcut' | ⟨hserial, _, _⟩)
        · exact cut_unique hcut hcut'
        · exact absurd hserial (cut_not_serial hcut)
      · rintro serial (hserial | ⟨hserial, _, _⟩)
        · exact absurd hserial (cut_not_serial hcut)
        · exact absurd hserial (cut_not_serial hcut)
    · have hrun : readPointer codecs create (depth + 1) s =
          readObject codecs create (readPointer codecs create depth) serial u :=
        readPointer_run hserial.1 hserial.2
      cases hcreate : create serial with
      | none =>
        rw [readObject_unknown hcreate] at hrun
        exact .stumbles hrun (.first hserial) hcreate
      | some types =>
        rw [readObject_known hcreate] at hrun
        cases members_outcome hplain (fun s hs hn => ih hs.consistent hn) types u hbyte
          (show u.remaining < 4 * depth by omega) with
        | ends h hbyte' hle' hspans hunique hknown =>
          refine .ends (hrun.trans (map_eq_ok.2 ⟨_, h, rfl⟩)) hbyte' (by omega)
            (.object hserial hcreate hspans) ?_ ?_
          · rintro v (hcut | ⟨hserial', hcreate', hmembers⟩)
            · exact absurd hserial (cut_not_serial hcut)
            · rcases serial_unique hserial hserial' with ⟨rfl, rfl⟩
              cases hcreate.symm.trans hcreate'
              exact hunique v hmembers
          · rintro other (hserial' | ⟨hserial', hcreate', hmembers⟩)
            · rcases serial_unique hserial hserial' with ⟨rfl, rfl⟩
              rw [hcreate]
              rfl
            · rcases serial_unique hserial hserial' with ⟨rfl, rfl⟩
              cases hcreate.symm.trans hcreate'
              exact hknown other hmembers
        | stumbles h hmeets hunknown =>
          rw [map_run, h] at hrun
          exact .stumbles hrun (.inside hserial hcreate hmeets) hunknown

/-- A pointer is read from a payload just if the receiver knows the serial numbers that it comes to;
    else it dereferences a null object. -/
theorem readPointer_returns_iff (hplain : ∀ kind, Steady (codecs.read kind)) {depth : ℕ}
    (hs : Consistent s) (hdepth : s.remaining < 4 * depth) :
    (∃ pointer u, readPointer codecs create depth s = .ok pointer u) ↔
      ∀ serial, Meets codecs create s serial → (create serial).isSome = true := by
  cases pointer_outcome create hplain hs hdepth with
  | ends h _ _ _ _ hknown => exact iff_of_true ⟨_, _, h⟩ hknown
  | stumbles h hmeets hunknown =>
    refine iff_of_false ?_ ?_
    · rintro ⟨_, _, hread⟩
      cases h.symm.trans hread
    · intro hknown
      have hsome := hknown _ hmeets
      rw [hunknown] at hsome
      cases hsome

/-- Written without an error, a pointer is read back in front of any other data just if there is no
    null pointer and no unknown type in it. A payload is read without a null object being
    dereferenced just if the receiver knows the serial numbers that it comes to. -/
theorem polymorphic_structs_iff (hplain : ∀ kind, Steady (codecs.read kind)) {pointer : Pointer κ L}
    {depth depth' : ℕ} {o t : OutputStream} (htyped : pointer.Typed codecs create)
    (hheight : pointer.height ≤ depth) (ho : Clean o)
    (hrun : writePointer codecs pointer o = .ok ⟨⟩ t) (herror : t.errorOccurred = false)
    (hshort : (OutputStream.aligned t).payload.length + 4 < 2 ^ 32) (hs : Consistent s)
    (hdepth : s.remaining < 4 * depth') :
    (ReadInFront (readPointer codecs create depth) pointer o t ↔ pointer.Restorable create) ∧
      ((∃ pointer u, readPointer codecs create depth' s = .ok pointer u) ↔
        ∀ serial, Meets codecs create s serial → (create serial).isSome = true) :=
  ⟨pointer_back_iff htyped hheight ho hrun herror hshort, readPointer_returns_iff hplain hs hdepth⟩

end Safety

def byteCodecs : Codecs Unit (BitVec 8) :=
  ⟨fun _ => OutputStream.writeInteger uint8 none, fun _ => InputStream.readInteger uint8 none⟩

def createSeven (serial : BitVec 32) : Option (List (Member Unit)) :=
  if serial = 7 then some [.plain ()] else none

def sevenHolding (value : BitVec 8) : Pointer Unit (BitVec 8) := .object 7 (.plain () value .nil)

theorem seven_typed (value : BitVec 8) : (sevenHolding value).Typed byteCodecs createSeven := by
  refine ⟨?_, integer_roundTrips uint8 (by decide) value, trivial⟩
  intro types htypes
  cases htypes
  rfl

theorem seven_restored :
    (ReadInFront (readPointer byteCodecs createSeven 2) (sevenHolding 5) (OutputStream.create false)
        (finalState (writePointer byteCodecs (sevenHolding 5) (OutputStream.create false))) ↔
      (sevenHolding 5).Restorable createSeven) ∧
    ((∃ pointer u, readPointer byteCodecs createSeven 2
        (InputStream.create ⟨[0, 0, 0, 7, 5], by decide⟩ false) = .ok pointer u) ↔
      ∀ serial, Meets byteCodecs createSeven (InputStream.create ⟨[0, 0, 0, 7, 5], by decide⟩ false) serial →
        (createSeven serial).isSome = true) :=
  polymorphic_structs_iff (fun _ => integer_steady uint8) (seven_typed 5) (by decide)
    (OutputStream.create_clean false) (eq_ok_of_returned (by decide)) (by decide) (by decide)
    (InputStream.create_consistent _ false) (by decide)

/-- The reader takes what follows a null pointer for a serial number, and dereferences a null object
    for the serial number 9. -/
theorem null_and_unknown :
    ¬ (ReadInFront (readPointer byteCodecs createSeven 1) .null (OutputStream.create false)
        (finalState (writePointer byteCodecs .null (OutputStream.create false)))) ∧
    halted (readPointer byteCodecs createSeven 2
      (InputStream.create ⟨[0, 0, 0, 9, 5], by decide⟩ false)) = some .outOfBounds := by
  refine ⟨?_, by decide⟩
  have htyped : Pointer.Typed byteCodecs createSeven .null := trivial
  have hheight : Pointer.height (.null : Pointer Unit (BitVec 8)) ≤ 1 := le_rfl
  exact (pointer_back_iff htyped hheight (OutputStream.create_clean false)
    (eq_ok_of_returned (by decide)) (by decide) (by decide)).1

end SomeIPRuntime.RoundTrip
