import SomeIPRuntime.BasicSequence
import SomeIPRuntime.WriteOperations

set_option autoImplicit false

namespace SomeIPRuntime.RoundTrip
open Bits ProgramRuns Deployment
open InputStream (Consistent Read position)
open OutputStream (Clean Write WriteOp Wrote wire lengthField fieldAt Opened Closed fieldWidth)

/-- A reader without an error stands where `o` writes next, and comes to what has been
    written up to `t`. -/
structure Receives (s : InputStream) (o t : OutputStream) : Prop where
  faces : Faces s o
  errorOccurred : s.errorOccurred = false
  ahead : Ahead s (t.bits.drop o.bits.length)

/-- The reader has gone on to `t` without an error. -/
structure Arrived (s u : InputStream) (t : OutputStream) : Prop where
  faces : Faces u t
  message : u.message = s.message
  errorOccurred : u.errorOccurred = false

section Receiving
variable {s u v : InputStream} {o m t : OutputStream}

theorem Receives.short (h : Receives s o t) (ht : Clean t) : t.payload.length < 2 ^ 32 := by
  have hlen := h.ahead.length_le
  have hposition := InputStream.position_le h.faces.consistent
  have hfits := s.message.fits
  rw [List.length_drop, List.length_drop, bitsOf_length, ht.bits_length] at hlen
  rw [h.faces.position] at hlen hposition
  omega

theorem drop_extends {xs ys zs : List Bool} (hxy : xs <+: ys) (hyz : ys <+: zs) :
    zs.drop xs.length = ys.drop xs.length ++ zs.drop ys.length := by
  obtain ⟨b, rfl⟩ := hxy
  obtain ⟨c, rfl⟩ := hyz
  rw [List.drop_left, List.drop_left, List.append_assoc, List.drop_left]

theorem Receives.first (h : Receives s o t) (hom : o.bits <+: m.bits) (hmt : m.bits <+: t.bits) :
    Receives s o m := by
  refine ⟨h.faces, h.errorOccurred, ?_⟩
  have hahead := h.ahead
  rw [drop_extends hom hmt] at hahead
  exact (List.prefix_append _ _).trans hahead

theorem Receives.rest (h : Receives s o t) (hom : o.bits <+: m.bits) (hmt : m.bits <+: t.bits)
    (hu : Arrived s u m) : Receives u m t := by
  refine ⟨hu.faces, hu.errorOccurred, ?_⟩
  have hahead := h.ahead
  rw [drop_extends hom hmt] at hahead
  refine hahead.rest ?_ hu.message
  rw [hu.faces.position, h.faces.position, List.length_drop]
  have hle := hom.length_le
  omega

theorem Receives.aligned (h : Receives s o t) (ho : Clean o)
    (ht : (OutputStream.aligned o).bits <+: t.bits) :
    Receives (InputStream.aligned s) (OutputStream.aligned o) t := by
  obtain ⟨hfaces, hmessage, herror⟩ := faces_aligned h.faces ho
  exact h.rest (OutputStream.aligned_appends ho).earlier ht
    ⟨hfaces, hmessage, herror.trans h.errorOccurred⟩

theorem Arrived.trans (h : Arrived s u m) (h' : Arrived u v t) : Arrived s v t :=
  ⟨h'.faces, h'.message.trans h.message, h'.errorOccurred⟩

/-- `remaining_` loses the bytes that the writer has completed. -/
theorem Arrived.consumed (h : Arrived s u t) (hs : Faces s o) (ho : Clean o) (ht : Clean t)
    (hle : o.payload.length ≤ t.payload.length) :
    wrapSub 64 s.remaining u.remaining = t.payload.length - o.payload.length := by
  have hcurrent := (hs.bit ho).2
  have hcurrent' := (h.faces.bit ht).2
  have hin := hs.consistent.inside
  have hin' := h.faces.consistent.inside
  have hfits := s.message.fits
  rw [h.message] at hin'
  rw [wrapSub_of_le (by omega) (by omega)]
  omega

end Receiving

section RoundTrips
variable {α : Type}

/-- What is written from `o` on is read back, whatever is before it. -/
def ReadBack (write : Write Unit) (read : Read α) (value : α) (o : OutputStream) : Prop :=
  ∀ t s, write o = .ok ⟨⟩ t → t.errorOccurred = false → Receives s o t →
    ∃ u, read s = .ok value u ∧ Arrived s u t

structure RoundTrips (write : Write Unit) (read : Read α) (value : α) : Prop where
  writes : WriteOp write
  reads : ∀ o, Clean o → ReadBack write read value o

/-- A codec that round-trips at byte boundaries, and ends at one. -/
structure WholeBytes (write : Write Unit) (read : Read α) (value : α) : Prop where
  writes : WriteOp write
  reads : ∀ o, Clean o → o.currentBit = 0 → ReadBack write read value o
  whole : ∀ o t, Clean o → o.currentBit = 0 → write o = .ok ⟨⟩ t → t.errorOccurred = false →
    t.currentBit = 0

theorem quiet_before {o t : OutputStream} {extra : List ℕ} {new : List OutputStream.Event}
    (h : Wrote o t extra new) (herror : t.errorOccurred = false) : o.errorOccurred = false := by
  cases ho : o.errorOccurred with
  | false => rfl
  | true =>
    rw [h.sticky ho] at herror
    cases herror

theorem balanced {o t : OutputStream} {extra : List ℕ} {new : List OutputStream.Event}
    (h : Wrote o t extra new) (herror : t.errorOccurred = false) : extra = [] := by
  have hcount : new.count .abandoned = 0 := by
    refine List.count_eq_zero.2 fun hmem => ?_
    rw [h.failed hmem] at herror
    cases herror
  have hleft := h.leftover
  rw [hcount] at hleft
  exact List.eq_nil_of_length_eq_zero hleft

end RoundTrips

/-- A field whose bits survive is read back from every bit offset. -/
theorem field_roundTrips {α : Type} {size bits count : ℕ} {isSigned : Bool} {field : BitVec (8 * size)}
    {cast : BitVec (8 * size) → α} {invalid : Option α} {a : α}
    (hop : OutputStream.WriteOp (OutputStream.writeBitValue size field bits isSigned))
    (hclamp : clampBits size bits = count) (hwritable : OutputStream.Writable count isSigned)
    (hback : ∀ le, cast (decoded size count le isSigned (OutputStream.wire size count le field)) = a) :
    RoundTrips (OutputStream.writeBitValue size field bits isSigned)
      (InputStream.assignBits size bits isSigned cast invalid) a where
  writes := hop
  reads o ho t s hrun _ hs := by
    have hle := InputStream.clampBits_le size bits
    have hpos : 0 < count := by
      unfold OutputStream.Writable at hwritable
      omega
    obtain ⟨t', hrun', ht⟩ := OutputStream.writeBitValue_run field ho (hclamp ▸ hwritable)
    cases hrun.symm.trans hrun'
    rw [hclamp] at ht hle
    have hlen := OutputStream.wire_length o.isLittleEndian field hle
    have hahead := hs.ahead
    rw [ht.bits, List.drop_left] at hahead
    obtain ⟨u, hread, hmoved, hquiet⟩ := assignBits_ahead hs.faces.consistent hahead size bits isSigned
      cast invalid hclamp hlen hpos
    rw [hs.faces.isLittleEndian, hback] at hread
    exact ⟨u, hread, hmoved.faces hs.faces (by rw [ht.bits, List.length_append, hlen]) ht.isLittleEndian,
      hmoved.message, hquiet⟩

section InFront
variable {α : Type} {read : Read α} {value : α} {o t : OutputStream}

/-- What has been written from `o` to `t` is read back in front of any other data, and so
    are these. -/
def ReadInFront (read : Read α) (value : α) (o t : OutputStream) : Prop :=
  ∀ (β : Type) (write' : Write Unit) (read' : Read β) (next : β) (w : OutputStream),
    RoundTrips write' read' next → write' t = .ok ⟨⟩ w → w.errorOccurred = false →
    ∀ s, Receives s o w → ∃ u v, read s = .ok value u ∧ read' u = .ok next v ∧ Arrived s v w

theorem nothing_roundTrips : RoundTrips (pure ()) (pure ()) () where
  writes := .noFields
  reads o _ t s hrun _ hs := by
    cases hrun
    exact ⟨s, rfl, hs.faces, rfl, hs.errorOccurred⟩

theorem readInFront_iff (ht : Clean t) (hpre : t.payload.length < 2 ^ 32 → o.bits <+: t.bits)
    (herror : t.errorOccurred = false) :
    ReadInFront read value o t ↔
      ∀ s, Receives s o t → ∃ u, read s = .ok value u ∧ Arrived s u t := by
  constructor
  · intro h s hs
    obtain ⟨u, v, hread, hnothing, hv⟩ := h _ _ _ _ t nothing_roundTrips rfl herror s hs
    cases hnothing
    exact ⟨u, hread, hv⟩
  · intro h β write' read' next w hnext hrun hquiet s hs
    obtain ⟨_, _, htw⟩ := hnext.writes.writer.ok hrun ht
    have hshort := hs.short htw.clean
    have hbits := htw.bits hshort
    have hfirst := hpre (htw.length.trans_lt hshort)
    obtain ⟨u, hread, hu⟩ := h s (hs.first hfirst hbits)
    obtain ⟨v, hread', hv⟩ := hnext.reads t ht w u hrun hquiet (hs.rest hfirst hbits hu)
    exact ⟨u, v, hread, hread', hu.trans hv⟩

theorem receives_exists (ht : Clean t) (hpre : o.bits <+: t.bits)
    (hshort : (OutputStream.aligned t).payload.length < 2 ^ 32) : ∃ s, Receives s o t := by
  have hcarries := flushed_carries ht hshort
  obtain ⟨s, hmessage, hs, herror⟩ := facing_exists (hcarries.earlier hpre)
  refine ⟨s, hs, herror, ?_⟩
  rw [← hmessage] at hcarries
  unfold Ahead
  rw [hs.position]
  exact hcarries.drop _

end InFront

theorem readWidth_ahead {s : InputStream} (hs : Consistent s) {width value : ℕ}
    (hwidth : IsWidth width) (hvalue : value < 2 ^ (8 * width)) (permitZeroWidth : Bool) (before : ℕ)
    (hx : Ahead s (bitsOf (lengthField s.isLittleEndian value width))) :
    ∃ u, InputStream.readWidth width permitZeroWidth before s = .ok value u ∧
      Moved (8 * width) s u ∧ u.errorOccurred = false := by
  have hpos : 0 < width := Nat.pos_of_ne_zero hwidth.ne_zero
  have hwire : bitsOf (lengthField s.isLittleEndian value width) =
      wire width (8 * width) s.isLittleEndian (BitVec.ofNat _ value) := by
    rw [OutputStream.wire_whole, lengthField, if_pos hwidth]
  rw [hwire] at hx
  obtain ⟨u, hrun, hu⟩ := assignBits_ahead hs hx width (8 * width) false BitVec.toNat none
    (by rw [clampBits_eq, Nat.min_self]) (OutputStream.wire_length _ _ le_rfl) (by omega)
  rw [decoded_full hpos, BitVec.toNat_ofNat, Nat.mod_eq_of_lt hvalue] at hrun
  refine ⟨u, ?_, hu⟩
  obtain rfl | rfl | rfl := hwidth <;> exact hrun

theorem bytes_ahead {v : InputStream} (hbit : v.currentBit = 0) {data : List Byte}
    (h : Ahead v (bitsOf data)) : ∃ more, v.message.body.drop v.current = data ++ more := by
  unfold Ahead InputStream.position at h
  rw [hbit, Nat.add_zero, bitsOf_drop] at h
  rw [← List.append_nil (bitsOf (v.message.body.drop v.current))] at h
  obtain ⟨more, hmore⟩ := bytes_extend [] h (Nat.succ_pos 7)
  exact ⟨more, hmore.symm⟩

theorem skipped_moved {size : ℕ} {v : InputStream} (hv : Consistent v) (hbit : v.currentBit = 0)
    (hsize : size ≤ v.remaining) :
    Moved (8 * size) v (InputStream.skipped size v) ∧
      (InputStream.skipped size v).errorOccurred = v.errorOccurred := by
  have hin := hv.inside
  unfold InputStream.skipped
  rw [if_neg (by omega)]
  refine ⟨⟨⟨hv.bit, ?_, ?_⟩, ?_, rfl, rfl⟩, rfl⟩
  · change v.current + size + (v.remaining - size) = v.message.body.length
    omega
  · intro hpos
    change 0 < v.currentBit at hpos
    omega
  · change 8 * (v.current + size) + v.currentBit = 8 * v.current + v.currentBit + 8 * size
    omega

def counted (width size : ℕ) (o : OutputStream) : OutputStream :=
  { OutputStream.aligned o with
    payload := (OutputStream.aligned o).payload ++
      lengthField (OutputStream.aligned o).isLittleEndian size width }

section Counted
variable {width size : ℕ} {o t : OutputStream} {s : InputStream}

theorem counted_zero (size : ℕ) (o : OutputStream) : counted 0 size o = OutputStream.aligned o := by
  unfold counted lengthField
  rw [if_neg (by decide), List.append_nil]

theorem counted_appends (width size : ℕ) (ho : Clean o) :
    OutputStream.Appends (bitsOf (lengthField (OutputStream.aligned o).isLittleEndian size width))
      (OutputStream.aligned o) (counted width size o) :=
  OutputStream.writeRaw_appends (OutputStream.aligned_appends ho).clean (OutputStream.aligned_currentBit o) _

theorem counted_currentBit (width size : ℕ) (o : OutputStream) : (counted width size o).currentBit = 0 :=
  OutputStream.aligned_currentBit o

theorem counted_receives (hwidth : IsWidth width) (hlt : size < 2 ^ (8 * width)) (ho : Clean o)
    (ht : (counted width size o).bits <+: t.bits) (hs : Receives s o t) (permitZeroWidth : Bool)
    (before : ℕ) :
    ∃ v, InputStream.readWidth width permitZeroWidth before (InputStream.aligned s) = .ok size v ∧
      Receives v (counted width size o) t ∧ v.message = s.message := by
  have hfield := counted_appends width size ho
  have hstart := hs.aligned ho (hfield.earlier.trans ht)
  obtain ⟨_, hmessage, _⟩ := faces_aligned hs.faces ho
  have hahead := hstart.ahead
  rw [drop_extends hfield.earlier ht, hfield.bits, List.drop_left, ← hstart.faces.isLittleEndian]
    at hahead
  obtain ⟨v, hread, hmoved, hquiet⟩ := readWidth_ahead hstart.faces.consistent hwidth hlt
    permitZeroWidth before ((List.prefix_append _ _).trans hahead)
  have hlen : (bitsOf (lengthField (OutputStream.aligned o).isLittleEndian size width)).length =
      8 * width := by
    rw [bitsOf_length, OutputStream.lengthField_length, if_pos hwidth]
  rw [← hlen] at hmoved
  exact ⟨v, hread, hstart.rest hfield.earlier ht
    ⟨hmoved.appended hstart.faces hfield, hmoved.message, hquiet⟩, hmoved.message.trans hmessage⟩

/-- Where whole bytes have been written, they are in the message, and skipping them arrives. -/
theorem Receives.bytes {data : List Byte} (h : Receives s o t) (ho : Clean o) (hbit : o.currentBit = 0)
    (ht : OutputStream.Appends (bitsOf data) o t) :
    ∃ more, s.message.body.drop s.current = data ++ more ∧ data.length ≤ s.remaining ∧
      Arrived s (InputStream.skipped data.length s) t := by
  have hahead := h.ahead
  rw [ht.bits, List.drop_left] at hahead
  have hsbit : s.currentBit = 0 := (h.faces.bit ho).1.trans hbit
  obtain ⟨more, hmore⟩ := bytes_ahead hsbit hahead
  have hlen := congrArg List.length hmore
  have hin := h.faces.consistent.inside
  rw [List.length_drop, List.length_append] at hlen
  have hremaining : data.length ≤ s.remaining := by omega
  obtain ⟨hmoved, hquiet⟩ := skipped_moved h.faces.consistent hsbit hremaining
  rw [← bitsOf_length] at hmoved
  exact ⟨more, hmore, hremaining, hmoved.appended h.faces ht, hmoved.message,
    hquiet.trans h.errorOccurred⟩

end Counted

theorem littleEndian_injective {xs ys : List Byte} (hlen : xs.length = ys.length)
    (h : littleEndian xs = littleEndian ys) : xs = ys := by
  induction xs generalizing ys with
  | nil => exact (List.eq_nil_of_length_eq_zero hlen.symm).symm
  | cons x xs ih =>
    cases ys with
    | nil => cases hlen
    | cons y ys =>
      have hx := x.isLt
      have hy := y.isLt
      rw [littleEndian, littleEndian] at h
      have hhead : x = y := BitVec.eq_of_toNat_eq (by omega)
      have htail : littleEndian xs = littleEndian ys := by omega
      rw [hhead, ih (Nat.succ.inj hlen) htail]

/-- The bytes of a field are determined by the number in it. -/
theorem number_bytes (le : Bool) {bytes : List Byte} {width : ℕ} (hwidth : IsWidth width)
    (hlen : bytes.length = width) :
    littleEndian (OutputStream.reorder le bytes) < 2 ^ (8 * width) ∧
      lengthField le (littleEndian (OutputStream.reorder le bytes)) width = bytes := by
  have hlt := OutputStream.littleEndian_append_lt (OutputStream.reorder le bytes)
  rw [OutputStream.reorder_length, hlen] at hlt
  refine ⟨hlt, ?_⟩
  have hbytes : rawBytes width (BitVec.ofNat _ (littleEndian (OutputStream.reorder le bytes))) =
      OutputStream.reorder le bytes := by
    refine littleEndian_injective ?_ ?_
    · rw [OutputStream.reorder_length, hlen, rawBytes_length]
    · rw [OutputStream.littleEndian_rawBytes, BitVec.toNat_ofNat, Nat.mod_eq_of_lt hlt]
  rw [lengthField, if_pos hwidth, hbytes, OutputStream.reorder_reorder]

theorem field_bytes {o : OutputStream} {place width value : ℕ} (hwidth : IsWidth width)
    (hin : place + width ≤ o.payload.length) (h : fieldAt o place width = value) :
    value < 2 ^ (8 * width) ∧
      (o.payload.drop place).take width = lengthField o.isLittleEndian value width := by
  have hlen : ((o.payload.drop place).take width).length = width := by
    rw [List.length_take, List.length_drop]
    omega
  obtain ⟨hlt, hbytes⟩ := number_bytes o.isLittleEndian hwidth hlen
  subst h
  exact ⟨hlt, hbytes.symm⟩

/-- The bits of a container: what is in front of its length field, the field with the
    number of bytes of the content, and what is behind it. -/
theorem closed_bits {o m n t : OutputStream} {width place start : ℕ}
    {new : List OutputStream.Event} (ho : Opened o m width place start) (hm : m.currentBit = 0)
    (hn : Wrote m n [] new) (ht : Closed n t width place start o.positions) (hwidth : IsWidth width)
    (herror : t.errorOccurred = false) (hshort : t.payload.length < 2 ^ 32) :
    n.payload.length - start < 2 ^ (8 * width) ∧
      t.bits = bitsOf (m.payload.take place ++
          lengthField o.isLittleEndian (n.payload.length - start) width ++
          m.payload.drop (place + width)) ++ n.bits.drop m.bits.length := by
  obtain ⟨there, hplace, hover⟩ := ht.kept
  have hfield : fieldWidth width = width := if_pos hwidth
  have hlen : t.payload.length = n.payload.length := hover.length
  have hheader := ho.header
  have hstart := ho.content
  have hmn := hn.payload (hlen ▸ hshort)
  have hle := hmn.length_le
  rw [hfield] at hover hheader
  obtain rfl := hplace (by omega)
  obtain ⟨hlt, hbytes⟩ := field_bytes hwidth (by omega)
    (ht.field hwidth herror (hlen ▸ hshort) (by omega) (by omega))
  refine ⟨hlt, ?_⟩
  have hendian : t.isLittleEndian = o.isLittleEndian :=
    hover.isLittleEndian.trans (hn.isLittleEndian.trans ho.isLittleEndian)
  have hsplit : t.payload = m.payload.take there ++
      lengthField o.isLittleEndian (n.payload.length - start) width ++
      m.payload.drop (there + width) ++ n.payload.drop m.payload.length := by
    obtain ⟨content, hcontent⟩ := hmn
    have hbefore : t.payload.take there = m.payload.take there := by
      rw [hover.before]
      change n.payload.take there = _
      rw [← hcontent, List.take_append_of_le_length (by omega)]
    have hbehind : t.payload.drop (there + width) =
        m.payload.drop (there + width) ++ n.payload.drop m.payload.length := by
      rw [hover.behind]
      change n.payload.drop (there + width) = _
      rw [← hcontent, List.drop_append_of_le_length (by omega), List.drop_left]
    rw [hendian] at hbytes
    rw [List.append_assoc, ← hbehind, ← hbefore, ← hbytes, List.append_assoc, ← List.drop_drop,
      List.take_append_drop, List.take_append_drop]
  have hcurrent : (byteBits t.currentByte).take t.currentBit =
      (byteBits n.currentByte).take n.currentBit := by
    rw [hover.currentByte, hover.currentBit]
    rfl
  have hrest : n.bits.drop m.bits.length =
      bitsOf (n.payload.drop m.payload.length) ++ (byteBits n.currentByte).take n.currentBit := by
    obtain ⟨content, hcontent⟩ := hmn
    rw [OutputStream.bits_of_aligned hm]
    unfold OutputStream.bits
    rw [← hcontent, List.drop_left, bitsOf_append, List.append_assoc, List.drop_left]
  rw [hrest, ← List.append_assoc, ← bitsOf_append, ← hsplit, ← hcurrent]
  rfl

def entered (width : ℕ) (o : OutputStream) : OutputStream :=
  OutputStream.pushed (OutputStream.widthWritten 0 width (OutputStream.pushed o))

theorem openContent_run {o : OutputStream} (hbit : o.currentBit = 0) (width : ℕ) :
    OutputStream.openContent width o = .ok ⟨⟩ (entered width o) := by
  unfold OutputStream.openContent
  change (OutputStream.writeWidth 0 width >>= _) (OutputStream.pushed o) = _
  rw [bind_ok (OutputStream.writeWidth_run 0 width (o := OutputStream.pushed o) hbit)]
  rfl

theorem entered_opened {o : OutputStream} (ho : Clean o) (hbit : o.currentBit = 0) (width : ℕ) :
    Opened o (entered width o) width o.payload.length (entered width o).payload.length :=
  OutputStream.opened_of_adds hbit
    (OutputStream.widthWritten_adds 0 width (o := OutputStream.pushed o) ⟨ho.bit, ho.rest⟩ hbit).1
    (OutputStream.widthWritten_length 0 width (OutputStream.pushed o)).ge

theorem entered_payload (width : ℕ) (o : OutputStream) :
    (entered width o).payload = o.payload ++ lengthField o.isLittleEndian 0 width := rfl

section Enclosed
variable {o n t : OutputStream} {width : ℕ} {new : List OutputStream.Event} {s u : InputStream}

/-- The bits from a length field on: the number of bytes of the content, and the content. -/
theorem enclosed_bits (ho : Clean o) (hbit : o.currentBit = 0) (hwidth : IsWidth width)
    (hn : Wrote (entered width o) n [] new)
    (ht : Closed n t width o.payload.length (entered width o).payload.length o.positions)
    (herror : t.errorOccurred = false) (hshort : t.payload.length < 2 ^ 32) :
    n.payload.length - (entered width o).payload.length < 2 ^ (8 * width) ∧
      t.bits = o.bits ++ bitsOf (lengthField o.isLittleEndian
          (n.payload.length - (entered width o).payload.length) width) ++
        n.bits.drop (entered width o).bits.length := by
  obtain ⟨hlt, hbits⟩ := closed_bits (entered_opened ho hbit width) hbit hn ht hwidth herror hshort
  refine ⟨hlt, ?_⟩
  have hlen := OutputStream.lengthField_length o.isLittleEndian 0 width
  rw [if_pos hwidth] at hlen
  rw [hbits, OutputStream.bits_of_aligned hbit, entered_payload, List.take_left,
    List.drop_eq_nil_of_le (by rw [List.length_append, hlen]), List.append_nil, bitsOf_append]

theorem enclosed_receives (ho : Clean o) (hbit : o.currentBit = 0) (hwidth : IsWidth width)
    (hn : Wrote (entered width o) n [] new)
    (ht : Closed n t width o.payload.length (entered width o).payload.length o.positions)
    (herror : t.errorOccurred = false) (hs : Receives s o t) (permitZeroWidth : Bool) (before : ℕ) :
    ∃ u, InputStream.readWidth width permitZeroWidth before s =
        .ok (n.payload.length - (entered width o).payload.length) u ∧
      Receives u (entered width o) n ∧ u.message = s.message := by
  have hopened := entered_opened ho hbit width
  have htclean := (OutputStream.closed_balanced hopened hn ht).clean
  obtain ⟨hlt, hbits⟩ := enclosed_bits ho hbit hwidth hn ht herror (hs.short htclean)
  have hahead := hs.ahead
  rw [hbits, List.append_assoc, List.drop_left, ← hs.faces.isLittleEndian] at hahead
  obtain ⟨u, hread, hmoved, hquiet⟩ := readWidth_ahead hs.faces.consistent hwidth hlt
    permitZeroWidth before ((List.prefix_append _ _).trans hahead)
  have hfield : (lengthField s.isLittleEndian
      (n.payload.length - (entered width o).payload.length) width).length = width := by
    rw [OutputStream.lengthField_length, if_pos hwidth]
  refine ⟨u, hread, ⟨hmoved.faces hs.faces ?_ hopened.isLittleEndian, hquiet, hahead.rest ?_ hmoved.message⟩,
    hmoved.message⟩
  · have hlen := OutputStream.lengthField_length o.isLittleEndian 0 width
    rw [if_pos hwidth] at hlen
    rw [OutputStream.bits_of_aligned hbit,
      OutputStream.bits_of_aligned (show (entered width o).currentBit = 0 from hbit), entered_payload,
      bitsOf_length, bitsOf_length, List.length_append, hlen, Nat.mul_add]
  · rw [hmoved.position, bitsOf_length, hfield]

/-- The reader is behind the container when it is behind the content. -/
theorem closed_arrived {position start : ℕ} {rest : List ℕ}
    (ht : Closed n t width position start rest) (htclean : Clean t) (hnclean : Clean n)
    (hmessage : u.message = s.message) {v : InputStream} (hv : Arrived u v n) : Arrived s v t := by
  obtain ⟨place, _, hover⟩ := ht.kept
  have hbits : t.bits.length = n.bits.length := by
    have hlen : t.payload.length = n.payload.length := hover.length
    have hcurrent : t.currentBit = n.currentBit := hover.currentBit
    rw [htclean.bits_length, hnclean.bits_length, hlen, hcurrent]
  refine ⟨⟨hv.faces.consistent, ?_, ?_⟩, hv.message.trans hmessage, hv.errorOccurred⟩
  · rw [hbits]
    exact hv.faces.position
  · rw [hv.faces.isLittleEndian]
    exact hover.isLittleEndian.symm

end Enclosed

section Lengths
variable {width : ℕ} {o n t : OutputStream} {s : InputStream} {new : List OutputStream.Event}

def behindField (width : ℕ) (o : OutputStream) : OutputStream :=
  if width ≠ 0 then entered width (OutputStream.aligned o) else OutputStream.aligned o

theorem openLength_run (width : ℕ) (ho : Clean o) :
    OutputStream.openLength width (OutputStream.aligned o) = .ok ⟨⟩ (behindField width o) ∧
      Clean (behindField width o) := by
  have halign := (OutputStream.aligned_appends ho).clean
  have hbit := OutputStream.aligned_currentBit o
  unfold OutputStream.openLength behindField
  split
  · exact ⟨openContent_run hbit _, (entered_opened halign hbit _).clean⟩
  · exact ⟨rfl, halign⟩

theorem behindField_currentBit (width : ℕ) (o : OutputStream) : (behindField width o).currentBit = 0 := by
  have hbit := OutputStream.aligned_currentBit o
  unfold behindField
  split
  · exact hbit
  · exact hbit

theorem closeLength_quiet (ho : Clean o) {extra : List ℕ} (hn : Wrote (behindField width o) n extra new)
    (hclose : OutputStream.closeLength width n = .ok ⟨⟩ t) (herror : t.errorOccurred = false) :
    n.errorOccurred = false := by
  unfold OutputStream.closeLength at hclose
  unfold behindField at hn
  split at hclose
  · rw [if_pos ‹_›] at hn
    rcases OutputStream.opened_pops (entered_opened (OutputStream.aligned_appends ho).clean
      (OutputStream.aligned_currentBit o) _) hn with ⟨q, p, rest, hpop⟩
    rcases OutputStream.closeContent_run width hpop with ⟨t', hrun, ht⟩
    cases hclose.symm.trans hrun
    rcases ht.kept with ⟨_, _, hover⟩
    by_contra hbad
    rw [hover.sticky (show n.errorOccurred = true by simpa using hbad)] at herror
    cases herror
  · cases hclose
    exact herror

/-- The length comes next, and behind it the content; behind the content the reader is behind the
    container. -/
theorem content_receives (hwidth : width = 0 ∨ IsWidth width) (ho : Clean o)
    (hn : Wrote (behindField width o) n [] new)
    (hclose : OutputStream.closeLength width n = .ok ⟨⟩ t) (herror : t.errorOccurred = false)
    (hs : Receives s o t) :
    ∃ u, InputStream.readWidth width true 0 (InputStream.aligned s) =
        .ok (if width = 0 then 0 else n.payload.length - (behindField width o).payload.length) u ∧
      Receives u (behindField width o) n ∧ ∀ v, Arrived u v n → Arrived s v t := by
  have halign := OutputStream.aligned_appends ho
  have hbit := OutputStream.aligned_currentBit o
  rcases faces_aligned hs.faces ho with ⟨_, hmessage, _⟩
  unfold OutputStream.closeLength at hclose
  rcases hwidth with rfl | hwidth
  · rw [if_neg (not_not_intro rfl)] at hclose
    cases hclose
    have hstart := hs.aligned ho (hn.bits (hs.short hn.clean))
    exact ⟨_, rfl, hstart, fun v hv => ⟨hv.faces, hv.message.trans hmessage, hv.errorOccurred⟩⟩
  · have hne := hwidth.ne_zero
    have hbehind : behindField width o = entered width (OutputStream.aligned o) := if_pos hne
    rw [hbehind] at hn ⊢
    rw [if_pos hne] at hclose
    rw [if_neg hne]
    have hopened := entered_opened halign.clean hbit width
    rcases OutputStream.closeContent_run width (hn.positions.trans hopened.positions) with ⟨t', hrun, ht⟩
    cases hclose.symm.trans hrun
    have hwrote := OutputStream.closed_balanced hopened hn ht
    have hstart := hs.aligned ho (hwrote.bits (hs.short hwrote.clean))
    rcases enclosed_receives halign.clean hbit hwidth hn ht herror hstart true 0 with
      ⟨u, hread, hu, hmessage'⟩
    exact ⟨u, hread, hu, fun v hv =>
      closed_arrived ht hwrote.clean hn.clean (hmessage'.trans hmessage) hv⟩

end Lengths

end SomeIPRuntime.RoundTrip
