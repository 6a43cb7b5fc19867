import SomeIPRuntime.OutputSteps

set_option autoImplicit false

namespace SomeIPRuntime.OutputStream
open Bits ProgramRuns Deployment

def fieldAt (o : OutputStream) (position width : ℕ) : ℕ :=
  littleEndian (reorder o.isLittleEndian ((o.payload.drop position).take width))

/-- A length field that was written since `o` and still has its value in `t`. -/
structure Holds (o t : OutputStream) (p : Patch) : Prop where
  later : o.payload.length ≤ p.position
  header : p.position + p.width ≤ p.start
  content : p.start ≤ p.stop
  inside : p.stop ≤ t.payload.length
  field : fieldAt t p.position p.width = p.stop - p.start

/-- From `o` to `t` the positions `extra` were left on the stack and the events `new` recorded.
    Positions in the payload are numbers of 32 bits. -/
structure Wrote (o t : OutputStream) (extra : List ℕ) (new : List Event) : Prop where
  clean : Clean t
  length : o.payload.length ≤ t.payload.length
  bits : t.payload.length < 2 ^ 32 → o.bits <+: t.bits
  sticky : o.errorOccurred = true → t.errorOccurred = true
  isLittleEndian : t.isLittleEndian = o.isLittleEndian
  positions : t.positions = extra ++ o.positions
  history : t.history = new ++ o.history
  leftover : extra.length = 2 * new.count .abandoned
  later : ∀ p ∈ extra, o.payload.length ≤ p ∧ p ≤ t.payload.length
  failed : .abandoned ∈ new → t.errorOccurred = true
  patches : t.errorOccurred = false → t.payload.length < 2 ^ 32 →
    ∀ p, .patched p ∈ new → IsWidth p.width → Holds o t p

theorem Adds.wrote {o t : OutputStream} (h : Adds o t) : Wrote o t [] [] where
  clean := h.clean
  length := (payload_extends h.clean.bit h.bits).length_le
  bits _ := h.bits
  sticky := h.sticky
  isLittleEndian := h.isLittleEndian
  positions := h.positions
  history := h.history
  leftover := rfl
  later := nofun
  failed := nofun
  patches _ _ := nofun

theorem Wrote.payload {o t : OutputStream} {extra : List ℕ} {new : List Event}
    (h : Wrote o t extra new) (hshort : t.payload.length < 2 ^ 32) : o.payload <+: t.payload :=
  payload_extends h.clean.bit (h.bits hshort)

theorem fieldAt_kept {t u : OutputStream} (h : t.payload <+: u.payload)
    (hle : u.isLittleEndian = t.isLittleEndian) {position width : ℕ}
    (hin : position + width ≤ t.payload.length) : fieldAt u position width = fieldAt t position width := by
  obtain ⟨rest, hrest⟩ := h
  unfold fieldAt
  rw [hle, ← hrest, List.drop_append_of_le_length (by omega),
    List.take_append_of_le_length (by rw [List.length_drop]; omega)]

theorem Wrote.trans {o t u : OutputStream} {extra extra' : List ℕ} {new new' : List Event}
    (h : Wrote o t extra new) (h' : Wrote t u extra' new') :
    Wrote o u (extra' ++ extra) (new' ++ new) where
  clean := h'.clean
  length := h.length.trans h'.length
  bits hshort := (h.bits (h'.length.trans_lt hshort)).trans (h'.bits hshort)
  sticky herror := h'.sticky (h.sticky herror)
  isLittleEndian := h'.isLittleEndian.trans h.isLittleEndian
  positions := by rw [h'.positions, h.positions, List.append_assoc]
  history := by rw [h'.history, h.history, List.append_assoc]
  leftover := by
    rw [List.length_append, List.count_append, h.leftover, h'.leftover]
    omega
  later p hp := by
    have hlen := h.length
    have hlen' := h'.length
    obtain hp | hp := List.mem_append.1 hp
    · have hlater := h'.later p hp
      omega
    · have hlater := h.later p hp
      omega
  failed hmem := by
    obtain hmem | hmem := List.mem_append.1 hmem
    · exact h'.failed hmem
    · exact h'.sticky (h.failed hmem)
  patches herror hshort p hmem hwidth := by
    have hlen := h.length
    have hlen' := h'.length
    obtain hmem | hmem := List.mem_append.1 hmem
    · have hholds := h'.patches herror hshort p hmem hwidth
      exact ⟨hlen.trans hholds.later, hholds.header, hholds.content, hholds.inside, hholds.field⟩
    · have hterror : t.errorOccurred = false := by
        cases ht : t.errorOccurred with
        | false => rfl
        | true =>
          rw [h'.sticky ht] at herror
          cases herror
      have hholds := h.patches hterror (by omega) p hmem hwidth
      have hheader := hholds.header
      have hcontent := hholds.content
      have hinside := hholds.inside
      refine ⟨hholds.later, hheader, hcontent, by omega, ?_⟩
      rw [fieldAt_kept (h'.payload hshort) h'.isLittleEndian (by omega), hholds.field]

def Writes (o t : OutputStream) : Prop := Clean o → ∃ extra new, Wrote o t extra new

theorem Wrote.refl {o : OutputStream} (h : Clean o) : Wrote o o [] [] := (Adds.refl h).wrote

theorem writes_composes :
    Composes Writes fun o e (_ : OutputStream) => Clean o → Untranscodable e where
  refl _ ho := ⟨[], [], Wrote.refl ho⟩
  trans h h' ho := by
    obtain ⟨extra, new, hwrote⟩ := h ho
    obtain ⟨extra', new', hwrote'⟩ := h' hwrote.clean
    exact ⟨_, _, hwrote.trans hwrote'⟩
  absorb h h' ho := by
    obtain ⟨_, _, hwrote⟩ := h ho
    exact h' hwrote.clean

abbrev Writer {α : Type} (x : Write α) : Prop :=
  Respects Writes (fun o e _ => Clean o → Untranscodable e) x

theorem AddsBits.writer {α : Type} {x : Write α} (h : AddsBits x) : Writer x := by
  intro o
  refine outcome_assuming fun ho => ?_
  cases hrun : x o with
  | ok a t => exact ⟨[], [], (h.ok hrun ho).wrote⟩
  | error e t => exact h.error hrun ho

theorem littleEndian_append_lt (bs : List Byte) : littleEndian bs < 2 ^ (8 * bs.length) := by
  induction bs with
  | nil => decide
  | cons b bs ih =>
    have hb := b.isLt
    rw [littleEndian, List.length_cons, Nat.mul_succ, Nat.add_comm (8 * bs.length), Nat.pow_add]
    omega

theorem littleEndian_rawBytes {size : ℕ} (value : BitVec (8 * size)) :
    littleEndian (rawBytes size value) = value.toNat := by
  have htyped := congrArg BitVec.toNat (typed_rawBytes value)
  have hlt := littleEndian_append_lt (rawBytes size value)
  rw [rawBytes_length] at hlt
  rw [typed, BitVec.toNat_ofNat, Nat.mod_eq_of_lt hlt] at htyped
  exact htyped

theorem reorder_reorder (le : Bool) (bs : List Byte) : reorder le (reorder le bs) = bs := by
  cases le
  · exact List.reverse_reverse bs
  · rfl

@[simp] theorem reorder_length (le : Bool) (bs : List Byte) :
    (reorder le bs).length = bs.length := by
  cases le
  · exact List.length_reverse
  · rfl

def overwritten (size : ℕ) (value : BitVec (8 * size)) (position : ℕ) (o : OutputStream) :
    OutputStream :=
  if position + size ≤ o.payload.length then
    { o with
      payload := o.payload.take position ++ reorder o.isLittleEndian (rawBytes size value) ++
        o.payload.drop (position + size) }
  else o

theorem writeTypedAt_run (size : ℕ) (value : BitVec (8 * size)) (position : ℕ) (o : OutputStream) :
    writeTypedAt size value position o = .ok ⟨⟩ (overwritten size value position o) := by
  unfold writeTypedAt overwritten
  rw [bind_ok (get_run o)]
  split
  · unfold writeRawAt
    rw [modify_run, reorder_length, rawBytes_length]
  · rfl

structure Overwrites (position width : ℕ) (o t : OutputStream) : Prop where
  length : t.payload.length = o.payload.length
  before : t.payload.take position = o.payload.take position
  behind : t.payload.drop (position + width) = o.payload.drop (position + width)
  currentByte : t.currentByte = o.currentByte
  currentBit : t.currentBit = o.currentBit
  sticky : o.errorOccurred = true → t.errorOccurred = true
  positions : t.positions = o.positions
  isLittleEndian : t.isLittleEndian = o.isLittleEndian
  history : t.history = o.history

theorem Overwrites.refl (position width : ℕ) (o : OutputStream) : Overwrites position width o o :=
  ⟨rfl, rfl, rfl, rfl, rfl, id, rfl, rfl, rfl⟩

theorem Overwrites.trans {position width : ℕ} {o t u : OutputStream}
    (h : Overwrites position width o t) (h' : Overwrites position width t u) :
    Overwrites position width o u :=
  ⟨h'.length.trans h.length, h'.before.trans h.before, h'.behind.trans h.behind,
    h'.currentByte.trans h.currentByte, h'.currentBit.trans h.currentBit,
    fun herror => h'.sticky (h.sticky herror), h'.positions.trans h.positions,
    h'.isLittleEndian.trans h.isLittleEndian, h'.history.trans h.history⟩

theorem Overwrites.bits {position : ℕ} {o t : OutputStream} (h : Overwrites position 0 o t) :
    t.bits = o.bits := by
  have hbefore := h.before
  have hbehind := h.behind
  have hpayload : t.payload = o.payload := by
    rw [← List.take_append_drop position t.payload, hbefore]
    exact (congrArg _ hbehind).trans (List.take_append_drop position o.payload)
  unfold OutputStream.bits
  rw [hpayload, h.currentByte, h.currentBit]

theorem overwritten_overwrites (size : ℕ) (value : BitVec (8 * size)) (position : ℕ)
    (o : OutputStream) : Overwrites position size o (overwritten size value position o) := by
  unfold overwritten
  split
  · rename_i hin
    have hlen : (o.payload.take position).length = position := by
      rw [List.length_take]
      omega
    refine ⟨?_, ?_, ?_, rfl, rfl, id, rfl, rfl, rfl⟩
    · simp only [List.length_append, hlen, reorder_length, rawBytes_length, List.length_drop]
      omega
    · dsimp only
      rw [List.append_assoc, List.take_left' hlen]
    · dsimp only
      rw [List.drop_left' (by rw [List.length_append, hlen, reorder_length, rawBytes_length])]
  · exact Overwrites.refl _ _ _

theorem overwritten_field {size : ℕ} (value : BitVec (8 * size)) {position : ℕ} {o : OutputStream}
    (hin : position + size ≤ o.payload.length) :
    fieldAt (overwritten size value position o) position size = value.toNat := by
  have hlen : (o.payload.take position).length = position := by
    rw [List.length_take]
    omega
  unfold fieldAt overwritten
  rw [if_pos hin]
  dsimp only
  rw [List.append_assoc, List.drop_left' hlen,
    List.take_left' (by rw [reorder_length, rawBytes_length]), reorder_reorder, littleEndian_rawBytes]

def fieldWidth (width : ℕ) : ℕ := if IsWidth width then width else 0

/-- What `_writeValueAt` does to the payload, and the number that it leaves there. -/
structure WrittenAt (value width position : ℕ) (o t : OutputStream) : Prop where
  overwrites : Overwrites position (fieldWidth width) o t
  field : IsWidth width → t.errorOccurred = false → value < 2 ^ 32 →
    position + width ≤ o.payload.length → fieldAt t position width = value

theorem overwritten_writtenAt {size value : ℕ} (hsize : IsWidth size) (position : ℕ)
    {o u : OutputStream} (hu : Overwrites position size o u)
    (hvalue : (overwritten size (BitVec.ofNat (8 * size) value) position u).errorOccurred = false →
      value < 2 ^ (8 * size)) :
    WrittenAt value size position o (overwritten size (BitVec.ofNat _ value) position u) := by
  have hfield : fieldWidth size = size := if_pos hsize
  refine ⟨?_, fun _ herror _ hin => ?_⟩
  · rw [hfield]
    exact hu.trans (overwritten_overwrites size _ position u)
  · rw [overwritten_field _ (by rw [hu.length]; exact hin), BitVec.toNat_ofNat,
      Nat.mod_eq_of_lt (hvalue herror)]

/-- The value is raised as an error where it is too large for the width. -/
theorem checkedAt_run (limit : ℕ) {size : ℕ} (hsize : IsWidth size) (hlimit : limit + 1 = 2 ^ (8 * size))
    (value position : ℕ) (o : OutputStream) :
    ∃ t, (do
        if value > limit then
          raise
        writeTypedAt size (BitVec.ofNat (8 * size) value) position : Write Unit) o = .ok ⟨⟩ t ∧
      WrittenAt value size position o t := by
  by_cases hlarge : value > limit
  · refine ⟨overwritten size (BitVec.ofNat _ value) position { o with errorOccurred := true }, ?_, ?_⟩
    · rw [if_pos hlarge]
      exact writeTypedAt_run _ _ _ _
    · refine overwritten_writtenAt (u := { o with errorOccurred := true }) hsize position
        ⟨rfl, rfl, rfl, rfl, rfl, fun _ => rfl, rfl, rfl, rfl⟩ fun herror => ?_
      have hsticky := (overwritten_overwrites size (BitVec.ofNat _ value) position
        { o with errorOccurred := true }).sticky rfl
      rw [hsticky] at herror
      cases herror
  · refine ⟨overwritten size (BitVec.ofNat _ value) position o, ?_, ?_⟩
    · rw [if_neg hlarge]
      exact writeTypedAt_run _ _ _ _
    · exact overwritten_writtenAt hsize position (Overwrites.refl _ _ o) fun _ => by omega

theorem writeValueAt_run (value width position : ℕ) (o : OutputStream) (hvalue : value < 2 ^ 32) :
    ∃ t, writeValueAt value width position o = .ok ⟨⟩ t ∧ WrittenAt value width position o t := by
  unfold writeValueAt
  split
  · exact checkedAt_run 0xFF (by decide) (by decide) value position o
  · exact checkedAt_run 0xFFFF (by decide) (by decide) value position o
  · exact ⟨_, writeTypedAt_run _ _ _ _,
      overwritten_writtenAt (show IsWidth 4 by decide) position (Overwrites.refl _ _ o) fun _ => hvalue⟩
  · rename_i h1 h2 h4
    refine ⟨o, rfl, Overwrites.refl _ _ o, fun hwidth => ?_⟩
    obtain rfl | rfl | rfl := hwidth
    · exact absurd rfl h1
    · exact absurd rfl h2
    · exact absurd rfl h4

theorem popPosition_run {o : OutputStream} {p : ℕ} {rest : List ℕ} (h : o.positions = p :: rest) :
    popPosition o = .ok p { o with positions := rest } := by
  unfold popPosition
  rw [h]

def taken (width position start : ℕ) (rest : List ℕ) (o : OutputStream) : OutputStream :=
  { o with
    positions := rest
    history := .patched ⟨position, width, start, o.payload.length, o.currentBit⟩ :: o.history }

theorem takePositions_run {width position start : ℕ} {rest : List ℕ} {o : OutputStream}
    (h : o.positions = start :: position :: rest) :
    takePositions width o =
      .ok (wrapSub 64 o.payload.length start, position) (taken width position start rest o) := by
  have hposition : getPosition o = .ok o.payload.length o := rfl
  unfold takePositions
  rw [bind_ok hposition, bind_ok (popPosition_run h),
    bind_ok (popPosition_run (o := { o with positions := position :: rest }) rfl),
    bind_ok (get_run _)]
  rfl

structure Opened (o m : OutputStream) (width position start : ℕ) : Prop where
  clean : Clean m
  aligned : o.currentBit = 0
  bits : o.bits <+: m.bits
  sticky : o.errorOccurred = true → m.errorOccurred = true
  isLittleEndian : m.isLittleEndian = o.isLittleEndian
  history : m.history = o.history
  positions : m.positions = start :: position :: o.positions
  later : o.payload.length ≤ position
  header : position + fieldWidth width ≤ start
  content : start = m.payload.length

structure Closed (n t : OutputStream) (width position start : ℕ) (rest : List ℕ) : Prop where
  kept : ∃ place, (position < 2 ^ 32 → place = position) ∧
    Overwrites place (fieldWidth width) (taken width position start rest n) t
  field : IsWidth width → t.errorOccurred = false → n.payload.length < 2 ^ 32 →
    start ≤ n.payload.length → position + width ≤ n.payload.length →
    fieldAt t position width = n.payload.length - start

theorem bits_of_aligned {o : OutputStream} (h : o.currentBit = 0) :
    o.bits = bitsOf o.payload := by
  unfold bits
  rw [h, List.take_zero, List.append_nil]

theorem Overwrites.payload_extends {position width : ℕ} {xs : List Byte} {o t : OutputStream}
    (h : Overwrites position width o t) (hxs : xs <+: o.payload) (hlen : xs.length ≤ position) :
    xs <+: t.payload := by
  have htake : xs = (o.payload.take position).take xs.length := by
    rw [List.take_take, Nat.min_eq_left hlen]
    exact List.prefix_iff_eq_take.1 hxs
  rw [htake, ← h.before, List.take_take, Nat.min_eq_left hlen]
  exact List.take_prefix _ _

theorem Overwrites.field_behind {position width : ℕ} {o t : OutputStream}
    (h : Overwrites position width o t) {p w : ℕ} (hp : position + width ≤ p) :
    fieldAt t p w = fieldAt o p w := by
  have hsplit : position + width + (p - (position + width)) = p := by omega
  have hdrop := congrArg (List.drop (p - (position + width))) h.behind
  rw [List.drop_drop, List.drop_drop, hsplit] at hdrop
  unfold fieldAt
  rw [hdrop, h.isLittleEndian]

section Closing
variable {o m n t : OutputStream} {width position start p q : ℕ} {extra rest : List ℕ}
  {new : List Event}

/-- Whichever positions it pops, a container keeps what was written before it. -/
theorem closed_kept (ho : Opened o m width position start) (hn : Wrote m n extra new)
    (hlater : o.payload.length ≤ p) (hin : p ≤ n.payload.length) (ht : Closed n t width p q rest) :
    Clean t ∧ t.payload.length = n.payload.length ∧ o.payload.length ≤ t.payload.length ∧
      (t.payload.length < 2 ^ 32 → o.bits <+: t.bits) ∧ t.isLittleEndian = o.isLittleEndian ∧
      (n.errorOccurred = true → t.errorOccurred = true) := by
  obtain ⟨place, hplace, hover⟩ := ht.kept
  have hopen : o.payload <+: m.payload := payload_extends ho.clean.bit ho.bits
  have hlen : t.payload.length = n.payload.length := hover.length
  refine ⟨⟨?_, ?_⟩, hlen, ?_, fun hshort => ?_, ?_, hover.sticky⟩
  · rw [hover.currentBit]
    exact hn.clean.bit
  · rw [hover.currentBit, hover.currentByte]
    exact hn.clean.rest
  · rw [hlen]
    exact hopen.length_le.trans hn.length
  · obtain rfl := hplace (by omega)
    obtain ⟨tail, htail⟩ := hover.payload_extends
      (hopen.trans (hn.payload (hlen ▸ hshort))) hlater
    rw [bits_of_aligned ho.aligned]
    unfold bits
    rw [← htail, bitsOf_append, List.append_assoc]
    exact List.prefix_append _ _
  · rw [hover.isLittleEndian]
    exact hn.isLittleEndian.trans ho.isLittleEndian

theorem closed_history (ho : Opened o m width position start) (hn : Wrote m n extra new)
    (ht : Closed n t width p q rest) :
    t.history = (.patched ⟨p, width, q, n.payload.length, n.currentBit⟩ :: new) ++ o.history := by
  obtain ⟨place, _, hover⟩ := ht.kept
  rw [hover.history, List.cons_append, ← ho.history, ← hn.history]
  rfl

theorem count_patched (patch : Patch) (new : List Event) :
    (Event.patched patch :: new).count .abandoned = new.count .abandoned :=
  List.count_cons_of_ne (by simp)

/-- A content that has popped what it pushed leaves the positions of its container. -/
theorem closed_balanced (ho : Opened o m width position start) (hn : Wrote m n [] new)
    (ht : Closed n t width position start o.positions) :
    Wrote o t [] (.patched ⟨position, width, start, n.payload.length, n.currentBit⟩ :: new) := by
  obtain ⟨place, hplace, hover⟩ := ht.kept
  have hmn := hn.length
  have hcontent := ho.content
  have hheader := ho.header
  obtain ⟨hclean, hlen, hmono, hbits, hle, hsticky⟩ := closed_kept ho hn ho.later (by omega) ht
  have hnofail : Event.abandoned ∉ new := by
    intro hmem
    have hcount := hn.leftover
    have hpos := List.count_pos_iff.2 hmem
    rw [List.length_nil] at hcount
    omega
  refine ⟨hclean, hmono, hbits, fun h => hsticky (hn.sticky (ho.sticky h)), hle,
    hover.positions, closed_history ho hn ht, ?_, nofun, fun hmem => ?_,
    fun herror hshort p hmem hwidth => ?_⟩
  · rw [count_patched, ← hn.leftover]
  · obtain hmem | hmem := List.mem_cons.1 hmem
    · cases hmem
    · exact absurd hmem hnofail
  · have hnerror : n.errorOccurred = false := by
      cases hn' : n.errorOccurred with
      | false => rfl
      | true =>
        rw [hsticky hn'] at herror
        cases herror
    obtain hmem | hmem := List.mem_cons.1 hmem
    · cases hmem
      have hfield : fieldWidth width = width := if_pos hwidth
      rw [hfield] at hheader
      exact ⟨ho.later, hheader, show start ≤ n.payload.length by omega,
        show n.payload.length ≤ t.payload.length by omega,
        ht.field hwidth herror (by omega) (by omega) (by omega)⟩
    · have hholds := hn.patches hnerror (by omega) p hmem hwidth
      have hlater := hholds.later
      have hopen := payload_extends ho.clean.bit ho.bits |>.length_le
      have hinside := hholds.inside
      rw [hplace (by omega)] at hover
      refine ⟨by omega, hholds.header, hholds.content, by omega, ?_⟩
      rw [hover.field_behind (by omega)]
      exact hholds.field

/-- Otherwise it pops positions of its content, and leaves its own instead. -/
theorem closed_unbalanced (ho : Opened o m width position start)
    (hn : Wrote m n (q :: p :: extra) new)
    (ht : Closed n t width p q (extra ++ start :: position :: o.positions)) :
    Wrote o t (extra ++ [start, position])
      (.patched ⟨p, width, q, n.payload.length, n.currentBit⟩ :: new) := by
  obtain ⟨place, _, hover⟩ := ht.kept
  have hopen := payload_extends ho.clean.bit ho.bits |>.length_le
  have hp := hn.later p (by simp)
  obtain ⟨hclean, hlen, hmono, hbits, hle, hsticky⟩ := closed_kept ho hn (by omega) hp.2 ht
  have hleft := hn.leftover
  rw [List.length_cons, List.length_cons] at hleft
  have hfailed : t.errorOccurred = true :=
    hsticky (hn.failed (List.count_pos_iff.1 (by omega)))
  refine ⟨hclean, hmono, hbits, fun _ => hfailed, hle, ?_, closed_history ho hn ht, ?_,
    fun x hx => ?_, fun _ => hfailed, fun herror => ?_⟩
  · rw [hover.positions, List.append_assoc]
    rfl
  · rw [count_patched, List.length_append]
    change extra.length + 2 = _
    omega
  · have hmn := hn.length
    have hcontent := ho.content
    obtain hx | hx := List.mem_append.1 hx
    · have hlater := hn.later x (by simp [hx])
      omega
    · have hheader := ho.header
      have hlater := ho.later
      simp only [List.mem_cons, List.not_mem_nil, or_false] at hx
      omega
  · rw [hfailed] at herror
    cases herror

/-- Closing pops what the content or the container has pushed last. -/
theorem closed_wrote (ho : Opened o m width position start) (hn : Wrote m n extra new)
    (hpop : n.positions = q :: p :: rest) (ht : Closed n t width p q rest) :
    ∃ extra', Wrote o t extra'
      (.patched ⟨p, width, q, n.payload.length, n.currentBit⟩ :: new) := by
  have hpositions := hn.positions
  rw [ho.positions, hpop] at hpositions
  cases extra with
  | nil =>
    cases hpositions
    exact ⟨_, closed_balanced ho hn ht⟩
  | cons x extra =>
    cases extra with
    | nil =>
      have hleft := hn.leftover
      rw [List.length_singleton] at hleft
      omega
    | cons y extra =>
      cases hpositions
      exact ⟨_, closed_unbalanced ho hn ht⟩

end Closing

theorem wrapSub_position {stop start : ℕ} (hle : start ≤ stop) (hlt : stop < 2 ^ 32) :
    wrapSub 64 stop start % 2 ^ 32 = stop - start := by
  rw [wrapSub_of_le hle (hlt.trans (by decide)), Nat.mod_eq_of_lt (by omega)]

theorem closeContent_run {n : OutputStream} (width : ℕ) {p q : ℕ} {rest : List ℕ}
    (h : n.positions = q :: p :: rest) :
    ∃ t, closeContent width n = .ok ⟨⟩ t ∧ Closed n t width p q rest := by
  obtain ⟨t, hrun, hover, hfield⟩ := writeValueAt_run (wrapSub 64 n.payload.length q % 2 ^ 32) width
    (p % 2 ^ 32) (taken width p q rest n) (Nat.mod_lt _ (by decide))
  refine ⟨t, ?_, ⟨_, Nat.mod_eq_of_lt, hover⟩, fun hwidth herror hshort hle hin => ?_⟩
  · unfold closeContent
    rw [bind_ok (takePositions_run h)]
    exact hrun
  · rw [Nat.mod_eq_of_lt (show p < 2 ^ 32 by omega)] at hfield
    rw [hfield hwidth herror (Nat.mod_lt _ (by decide)) hin, wrapSub_position hle hshort]

theorem closeMapEmpty_run {n : OutputStream} {p q : ℕ} {rest : List ℕ}
    (h : n.positions = q :: p :: rest) :
    ∃ t, closeMapEmpty true n = .ok ⟨⟩ t ∧ Closed n t 4 p q rest := by
  refine ⟨overwritten 4 (BitVec.ofNat _ (wrapSub 64 n.payload.length q)) p (taken 4 p q rest n), ?_,
    ⟨p, fun _ => rfl, overwritten_overwrites 4 _ p _⟩, fun hwidth herror hshort hle hin => ?_⟩
  · change (takePositions 4 >>= _) n = _
    rw [bind_ok (takePositions_run h)]
    exact writeTypedAt_run _ _ _ _
  · rw [overwritten_field (o := taken 4 p q rest n) _ hin, BitVec.toNat_ofNat]
    exact wrapSub_position hle hshort

theorem writePadding_run (count : ℕ) (o : OutputStream) : writePadding count o = .ok ⟨⟩ o := by
  induction count with
  | zero => rfl
  | succ count ih =>
    have hstep : writeWidth 0 8 o = .ok ⟨⟩ o := rfl
    rw [writePadding, bind_ok hstep, ih]

theorem closeUnion_run {n : OutputStream} {width maxLength p q : ℕ} {rest : List ℕ}
    (h : n.positions = q :: p :: rest) :
    ∃ t, closeUnion width maxLength n = .ok ⟨⟩ t ∧ Closed n t width p q rest := by
  by_cases hwidth : width = 0
  · subst hwidth
    unfold closeUnion
    rw [bind_ok (takePositions_run h)]
    simp only [ne_eq, not_true_eq_false, ↓reduceIte]
    have hno : ¬ IsWidth 0 := by decide
    split
    · exact ⟨{ taken 0 p q rest n with errorOccurred := true }, rfl,
        ⟨p, fun _ => rfl, rfl, rfl, rfl, rfl, rfl, fun _ => rfl, rfl, rfl, rfl⟩, fun h => absurd h hno⟩
    · exact ⟨taken 0 p q rest n, writePadding_run _ _, ⟨p, fun _ => rfl, Overwrites.refl _ _ _⟩,
        fun h => absurd h hno⟩
  · obtain ⟨t, hrun, ht⟩ := closeContent_run width h
    refine ⟨t, ?_, ht⟩
    unfold closeUnion
    unfold closeContent at hrun
    rw [bind_ok (takePositions_run h)] at hrun ⊢
    simp only [ne_eq, hwidth, not_false_eq_true, ↓reduceIte]
    exact hrun

def pushed (o : OutputStream) : OutputStream :=
  { o with positions := o.payload.length :: o.positions }

theorem opened_of_adds {o u : OutputStream} (hbit : o.currentBit = 0) (h : Adds (pushed o) u)
    {width : ℕ} (hheader : o.payload.length + fieldWidth width ≤ u.payload.length) :
    Opened o (pushed u) width o.payload.length u.payload.length where
  clean := ⟨h.clean.bit, h.clean.rest⟩
  aligned := hbit
  bits := h.bits
  sticky := h.sticky
  isLittleEndian := h.isLittleEndian
  history := h.history
  positions := congrArg (u.payload.length :: ·) h.positions
  later := le_rfl
  header := hheader
  content := rfl

theorem Opened.after {o t m : OutputStream} {width position start : ℕ} (hbit : o.currentBit = 0)
    (h : Adds o t) (hm : Opened t m width position start) : Opened o m width position start where
  clean := hm.clean
  aligned := hbit
  bits := h.bits.trans hm.bits
  sticky herror := hm.sticky (h.sticky herror)
  isLittleEndian := hm.isLittleEndian.trans h.isLittleEndian
  history := hm.history.trans h.history
  positions := by rw [hm.positions, h.positions]
  later := (payload_extends h.clean.bit h.bits).length_le.trans hm.later
  header := hm.header
  content := hm.content

theorem widthWritten_adds (value width : ℕ) {o : OutputStream} (ho : Clean o)
    (hbit : o.currentBit = 0) :
    Adds o (widthWritten value width o) ∧ (widthWritten value width o).currentBit = 0 :=
  (writeWidth_addsBytes value width).ok (writeWidth_run value width hbit) ⟨ho, hbit⟩

theorem widthWritten_length (value width : ℕ) (o : OutputStream) :
    (widthWritten value width o).payload.length = o.payload.length + fieldWidth width := by
  change (o.payload ++ lengthField o.isLittleEndian value width).length = _
  rw [List.length_append, lengthField_length]
  rfl

theorem openContent_opened {o : OutputStream} (ho : Clean o) (hbit : o.currentBit = 0) (width : ℕ) :
    ∃ m position start, openContent width o = .ok ⟨⟩ m ∧ Opened o m width position start := by
  have hpushed : Clean (pushed o) := ⟨ho.bit, ho.rest⟩
  refine ⟨_, _, _, ?_, opened_of_adds hbit (widthWritten_adds 0 width hpushed hbit).1
    (widthWritten_length 0 width (pushed o)).ge⟩
  unfold openContent
  change (writeWidth 0 width >>= _) (pushed o) = _
  rw [bind_ok (writeWidth_run 0 width (o := pushed o) hbit)]
  rfl

theorem writeUnionHeader_opened {o : OutputStream} (ho : Clean o) (hbit : o.currentBit = 0)
    (unionDefaultOrder : Bool) (lengthWidth typeWidth itsType : ℕ) :
    ∃ m position start,
      writeUnionHeader unionDefaultOrder lengthWidth typeWidth itsType o = .ok ⟨⟩ m ∧
        Opened o m lengthWidth position start := by
  cases unionDefaultOrder with
  | true =>
    have hpushed : Clean (pushed o) := ⟨ho.bit, ho.rest⟩
    obtain ⟨hlength, hlengthBit⟩ := widthWritten_adds 0 lengthWidth hpushed hbit
    obtain ⟨htype, -⟩ := widthWritten_adds itsType typeWidth hlength.clean hlengthBit
    refine ⟨_, _, _, ?_, opened_of_adds hbit (hlength.trans htype) ?_⟩
    · unfold writeUnionHeader
      change (writeWidth 0 lengthWidth >>= _) (pushed o) = _
      rw [bind_ok (writeWidth_run 0 lengthWidth (o := pushed o) hbit),
        bind_ok (writeWidth_run itsType typeWidth hlengthBit)]
      rfl
    · rw [widthWritten_length, widthWritten_length]
      exact Nat.le_add_right _ _
  | false =>
    obtain ⟨htype, htypeBit⟩ := widthWritten_adds itsType typeWidth ho hbit
    obtain ⟨m, position, start, hrun, hm⟩ := openContent_opened htype.clean htypeBit lengthWidth
    refine ⟨m, position, start, ?_, hm.after hbit htype⟩
    unfold writeUnionHeader
    change (writeWidth itsType typeWidth >>= _) o = _
    rw [bind_ok (writeWidth_run itsType typeWidth hbit)]
    exact hrun

def abandoned (n : OutputStream) : OutputStream := { n with history := .abandoned :: n.history }

theorem abandoned_wrote {o m n : OutputStream} {width position start : ℕ} {extra : List ℕ}
    {new : List Event} (ho : Opened o m width position start) (hn : Wrote m n extra new)
    (herror : n.errorOccurred = true) :
    Wrote o (abandoned n) (extra ++ [start, position]) (.abandoned :: new) where
  clean := ⟨hn.clean.bit, hn.clean.rest⟩
  length := (payload_extends ho.clean.bit ho.bits).length_le.trans hn.length
  bits hshort := ho.bits.trans (hn.bits hshort)
  sticky _ := herror
  isLittleEndian := hn.isLittleEndian.trans ho.isLittleEndian
  positions := by
    rw [show (abandoned n).positions = n.positions from rfl, hn.positions, ho.positions,
      List.append_assoc]
    rfl
  history := by
    rw [show (abandoned n).history = .abandoned :: n.history from rfl, hn.history, ho.history]
    rfl
  leftover := by
    rw [List.length_append, hn.leftover, List.count_cons_self]
    rfl
  later p hp := by
    have hopen := (payload_extends ho.clean.bit ho.bits).length_le
    have hmn := hn.length
    have hlater := ho.later
    have hheader := ho.header
    have hcontent := ho.content
    change o.payload.length ≤ p ∧ p ≤ n.payload.length
    obtain hp | hp := List.mem_append.1 hp
    · have hlast := hn.later p hp
      omega
    · simp only [List.mem_cons, List.not_mem_nil, or_false] at hp
      omega
  failed _ := herror
  patches hno := by
    rw [show (abandoned n).errorOccurred = true from herror] at hno
    cases hno

theorem opened_pops {o m n : OutputStream} {width position start : ℕ} {extra : List ℕ}
    {new : List Event} (ho : Opened o m width position start) (hn : Wrote m n extra new) :
    ∃ q p rest, n.positions = q :: p :: rest := by
  rw [hn.positions, ho.positions]
  cases extra with
  | nil => exact ⟨_, _, _, rfl⟩
  | cons x extra =>
    cases extra with
    | nil => exact ⟨_, _, _, rfl⟩
    | cons y extra => exact ⟨_, _, _, rfl⟩

/-- What a container encloses may be anything that is written. -/
theorem enclosed_writer {α : Type} {width : ℕ} {opening : Write Unit} {content : Write α}
    {closing : α → Write Unit}
    (hopening : ∀ o, Clean o → o.currentBit = 0 →
      ∃ m position start, opening o = .ok ⟨⟩ m ∧ Opened o m width position start)
    (hcontent : Writer content)
    (hclosing : ∀ a m n, content m = .ok a n → ∀ q p rest, n.positions = q :: p :: rest →
      (∃ t, closing a n = .ok ⟨⟩ t ∧ Closed n t width p q rest) ∨
        closing a n = .ok ⟨⟩ (abandoned n) ∧ n.errorOccurred = true) :
    Writer (do
      bitAlign
      opening
      let a ← content
      closing a) := by
  intro o
  refine outcome_assuming fun ho => ?_
  have halign := aligned_appends ho
  obtain ⟨m, position, start, hopen, hm⟩ := hopening (aligned o) halign.clean (aligned_currentBit o)
  rw [bind_ok (bitAlign_run o), bind_ok hopen]
  cases hrun : content m with
  | error e n =>
    rw [bind_error hrun]
    exact hcontent.error hrun hm.clean
  | ok a n =>
    rw [bind_ok hrun]
    obtain ⟨extra, new, hn⟩ := hcontent.ok hrun hm.clean
    obtain ⟨q, p, rest, hpop⟩ := opened_pops hm hn
    obtain ⟨t, hclose, ht⟩ | ⟨hclose, herror⟩ := hclosing a m n hrun q p rest hpop
    · rw [hclose]
      obtain ⟨extra', hwrote⟩ := closed_wrote hm hn hpop ht
      exact ⟨_, _, halign.adds.wrote.trans hwrote⟩
    · rw [hclose]
      exact ⟨_, _, halign.adds.wrote.trans (abandoned_wrote hm hn herror)⟩

theorem raise_writer : Writer raise := raise_addsBits.writer

theorem pure_writer {α : Type} (a : α) : Writer (pure a : Write α) := respects_pure writes_composes a

theorem bitAlign_writer : Writer bitAlign := by
  intro o
  exact fun ho => ⟨[], [], (aligned_appends ho).adds.wrote⟩

theorem hasError_run (o : OutputStream) : hasError o = .ok o.errorOccurred o := rfl

theorem hasError_writer : Writer hasError := fun o => writes_composes.refl o

theorem writeStructEmpty_writer {fields : Write Unit} (hfields : Writer fields) :
    Writer (writeStructEmpty fields) :=
  respects_bind writes_composes bitAlign_writer fun _ => respects_unlessError writes_composes hfields

theorem writeStruct_writer (depl : Option StructDeployment) {fields : Write Unit}
    (hfields : Writer fields) : Writer (writeStruct depl fields) := by
  unfold writeStruct openLength closeLength
  by_cases hwidth : (depl.map (·.structLengthWidth)).getD 0 = 0
  · simp only [hwidth, ne_eq, not_true_eq_false, ↓reduceIte]
    refine respects_bind writes_composes bitAlign_writer fun _ => ?_
    refine respects_bind writes_composes (pure_writer _) fun _ => ?_
    exact respects_bind writes_composes (respects_unlessError writes_composes hfields) fun _ =>
      pure_writer _
  · simp only [ne_eq, hwidth, not_false_eq_true, ↓reduceIte]
    refine enclosed_writer (fun o ho hbit => openContent_opened ho hbit _)
      (respects_unlessError writes_composes hfields) fun _ _ _ _ q p rest hpop => ?_
    exact Or.inl (closeContent_run _ hpop)

theorem writePolymorphicStruct_writer {value : Option (BitVec 32 × Write Unit)}
    (hvalue : ∀ v ∈ value, Writer v.2) : Writer (writePolymorphicStruct value) := by
  refine respects_bind writes_composes bitAlign_writer fun _ => ?_
  cases value with
  | none => exact pure_writer _
  | some v =>
    exact respects_bind writes_composes (writeBitValue_addsBits 4 v.1 32 false).writer fun _ =>
      respects_unlessError writes_composes (hvalue v rfl)

theorem writeVariant_writer (depl : Option VariantDeployment) (maxValueType valueType : ℕ)
    {content : Write Unit} (hcontent : Writer content) :
    Writer (writeVariant depl maxValueType valueType content) := by
  refine enclosed_writer (fun o ho hbit => writeUnionHeader_opened ho hbit _ _ _ _)
    (respects_unlessError writes_composes hcontent) fun _ _ _ _ q p rest hpop => ?_
  exact Or.inl (closeUnion_run hpop)

theorem announced_wrote {o u : OutputStream} (ho : Clean o) (hbit : o.currentBit = 0) (width : ℕ)
    (value : List Byte)
    (hu : u = widthWritten (value.length % 2 ^ 32) width o) :
    Wrote o
      { u with
        payload := u.payload ++ value
        history := .patched ⟨o.payload.length, width, u.payload.length,
          u.payload.length + value.length, 0⟩ :: u.history } []
      [.patched ⟨o.payload.length, width, u.payload.length, u.payload.length + value.length, 0⟩] := by
  obtain ⟨hfield, hfieldBit⟩ := widthWritten_adds (value.length % 2 ^ 32) width ho hbit
  have hlen := widthWritten_length (value.length % 2 ^ 32) width o
  rw [← hu] at hfield hfieldBit hlen
  have hvalue := (writeRaw_appends hfield.clean hfieldBit value).adds
  refine ⟨⟨hvalue.clean.bit, hvalue.clean.rest⟩, ?_, fun _ => hfield.bits.trans hvalue.bits,
    fun herror => hvalue.sticky (hfield.sticky herror), hfield.isLittleEndian, hfield.positions,
    congrArg (_ :: ·) hfield.history, rfl, nofun, fun hmem => ?_, fun herror hshort p hmem hwidth => ?_⟩
  · change o.payload.length ≤ (u.payload ++ value).length
    rw [List.length_append]
    omega
  · cases List.mem_singleton.1 hmem
  · cases List.mem_singleton.1 hmem
    have hwidth' : fieldWidth width = width := if_pos hwidth
    change (u.payload ++ value).length < _ at hshort
    rw [List.length_append] at hshort
    refine ⟨le_rfl, ?_, Nat.le_add_right _ _, (List.length_append ..).ge, ?_⟩
    · change o.payload.length + width ≤ u.payload.length
      omega
    · have hlarge : ¬ TooLarge (value.length % 2 ^ 32) width := by
        intro hlarge
        rw [hu] at herror
        change (_ || decide (TooLarge (value.length % 2 ^ 32) width)) = false at herror
        rw [decide_eq_true hlarge, Bool.or_true] at herror
        cases herror
      have hfits : value.length % 2 ^ 32 < 2 ^ (8 * width) := by
        unfold TooLarge at hlarge
        obtain rfl | rfl | rfl := hwidth <;> omega
      have hpayload : u.payload ++ value =
          o.payload ++ (lengthField o.isLittleEndian (value.length % 2 ^ 32) width ++ value) := by
        rw [hu, ← List.append_assoc]
        rfl
      have hlist := lengthField_length o.isLittleEndian (value.length % 2 ^ 32) width
      rw [if_pos hwidth] at hlist
      change littleEndian (reorder u.isLittleEndian
        (((u.payload ++ value).drop o.payload.length).take width)) = _
      rw [hpayload, List.drop_left, List.take_left' hlist, hfield.isLittleEndian, lengthField,
        if_pos hwidth, reorder_reorder, littleEndian_rawBytes, BitVec.toNat_ofNat,
        Nat.mod_eq_of_lt hfits, Nat.mod_eq_of_lt (by omega)]
      change _ = u.payload.length + value.length - u.payload.length
      omega

theorem writeByteVector_writer (depl : Option ArrayDeployment) (value : List Byte) :
    Writer (writeByteVector depl value) := by
  intro o
  refine outcome_assuming fun ho => ?_
  have halign := aligned_appends ho
  unfold writeByteVector
  rw [bind_ok (bitAlign_run o)]
  have hcheck := respects_checkSize addsBytes_composes raise_addsBytes
    ((depl.map (·.arrayLengthWidth)).getD 4) ((depl.map (·.arrayMinLength)).getD 0)
    ((depl.map (·.arrayMaxLength)).getD 0xFFFFFFFF) value.length
  rw [bind_run]
  cases hrun : checkSize ((depl.map (·.arrayLengthWidth)).getD 4)
      ((depl.map (·.arrayMinLength)).getD 0) ((depl.map (·.arrayMaxLength)).getD 0xFFFFFFFF)
      value.length (aligned o) with
  | error e m => exact hcheck.error hrun ⟨halign.clean, aligned_currentBit o⟩
  | ok a m =>
    obtain ⟨hm, hbit⟩ := hcheck.ok hrun ⟨halign.clean, aligned_currentBit o⟩
    dsimp only
    rw [unlessError_run]
    split
    · exact ⟨[], [], halign.adds.wrote.trans hm.wrote⟩
    · have hposition : ∀ m : OutputStream, getPosition m = .ok m.payload.length m := fun _ => rfl
      rw [bind_ok (hposition m), bind_ok (writeWidth_run _ _ hbit), bind_ok (hposition _)]
      exact ⟨_, _, (halign.adds.wrote.trans hm.wrote).trans
        (announced_wrote hm.clean hbit _ value rfl)⟩

theorem writeElements_writer {α : Type} {element : α → Write Unit} {value : List α}
    (helement : ∀ a ∈ value, Writer (element a)) : Writer (writeElements element value) := by
  induction value with
  | nil => exact pure_writer _
  | cons a rest ih =>
    refine respects_bind writes_composes (helement a List.mem_cons_self) fun _ => ?_
    exact respects_unlessError writes_composes
      (ih fun b hb => helement b (List.mem_cons_of_mem a hb))

theorem checkSize_writer (lengthWidth minLength maxLength size : ℕ) :
    Writer (checkSize lengthWidth minLength maxLength size) :=
  respects_checkSize writes_composes raise_writer _ _ _ _

theorem writeArrayContent_writer {α : Type} (lengthWidth minLength maxLength : ℕ)
    {element : α → Write Unit} {value : List α} (helement : ∀ a ∈ value, Writer (element a)) :
    Writer (writeArrayContent lengthWidth minLength maxLength element value) :=
  respects_bind writes_composes (checkSize_writer _ _ _ _) fun _ =>
    respects_unlessError writes_composes (writeElements_writer helement)

theorem writeVector_writer {α : Type} (depl : Option ArrayDeployment) {element : α → Write Unit}
    {value : List α} (helement : ∀ a ∈ value, Writer (element a)) :
    Writer (writeVector depl element value) := by
  have hcontent := fun lengthWidth minLength maxLength : ℕ =>
    writeArrayContent_writer lengthWidth minLength maxLength helement
  unfold writeVector openLength closeLength
  by_cases hwidth : (depl.map (·.arrayLengthWidth)).getD 4 = 0
  · simp only [hwidth, ne_eq, not_true_eq_false, ↓reduceIte]
    refine respects_bind writes_composes bitAlign_writer fun _ => ?_
    refine respects_bind writes_composes (pure_writer _) fun _ => ?_
    exact respects_bind writes_composes (hcontent _ _ _) fun _ => pure_writer _
  · simp only [ne_eq, hwidth, not_false_eq_true, ↓reduceIte]
    refine enclosed_writer (fun o ho hbit => openContent_opened ho hbit _) (hcontent _ _ _)
      fun _ _ _ _ q p rest hpop => ?_
    exact Or.inl (closeContent_run _ hpop)

section Entries
variable {κ ν : Type} {key : κ → Write Unit} {mapped : ν → Write Unit}

theorem writeEntries_writer {value : List (κ × ν)} (hkey : ∀ e ∈ value, Writer (key e.1))
    (hmapped : ∀ e ∈ value, Writer (mapped e.2)) : Writer (writeEntries key mapped value) := by
  induction value with
  | nil => exact pure_writer _
  | cons e rest ih =>
    have hrest := ih (fun b hb => hkey b (List.mem_cons_of_mem e hb)) fun b hb =>
      hmapped b (List.mem_cons_of_mem e hb)
    refine respects_bind writes_composes (hkey e List.mem_cons_self) fun _ => ?_
    refine respects_bind writes_composes hasError_writer fun _ => respects_ite (pure_writer _) ?_
    refine respects_bind writes_composes (hmapped e List.mem_cons_self) fun _ => ?_
    exact respects_bind writes_composes hasError_writer fun _ => respects_ite (pure_writer _) hrest

theorem writeEntries_left {value : List (κ × ν)} {o t : OutputStream}
    (h : writeEntries key mapped value o = .ok false t) : t.errorOccurred = true := by
  induction value generalizing o with
  | nil => cases h
  | cons e rest ih =>
    obtain ⟨_, m, _, h⟩ := bind_eq_ok.1 h
    rw [bind_ok (hasError_run m)] at h
    split at h
    · rename_i herror
      cases h
      exact herror
    · obtain ⟨_, n, _, h⟩ := bind_eq_ok.1 h
      rw [bind_ok (hasError_run n)] at h
      split at h
      · rename_i herror
        cases h
        exact herror
      · exact ih h

theorem writeMapContent_left {lengthWidth minLength maxLength : ℕ} {value : List (κ × ν)}
    {o t : OutputStream}
    (h : writeMapContent lengthWidth minLength maxLength key mapped value o = .ok false t) :
    t.errorOccurred = true := by
  obtain ⟨_, m, _, h⟩ := bind_eq_ok.1 h
  exact writeEntries_left h

theorem writeMap_writer (depl : Option MapDeployment) {value : List (κ × ν)}
    (hkey : ∀ e ∈ value, Writer (key e.1)) (hmapped : ∀ e ∈ value, Writer (mapped e.2)) :
    Writer (writeMap depl key mapped value) := by
  have hcontent : ∀ lengthWidth minLength maxLength : ℕ,
      Writer (writeMapContent lengthWidth minLength maxLength key mapped value) := fun _ _ _ =>
    respects_bind writes_composes (checkSize_writer _ _ _ _) fun _ => writeEntries_writer hkey hmapped
  unfold writeMap openLength
  by_cases hwidth : (depl.map (·.mapLengthWidth)).getD 4 = 0
  · simp only [hwidth, ne_eq, not_true_eq_false, ↓reduceIte]
    refine respects_bind writes_composes bitAlign_writer fun _ => ?_
    refine respects_bind writes_composes (pure_writer _) fun _ => ?_
    refine respects_bind writes_composes (hcontent _ _ _) fun completed => ?_
    cases completed with
    | true => exact pure_writer _
    | false => exact pure_writer _
  · simp only [ne_eq, hwidth, not_false_eq_true, ↓reduceIte]
    refine enclosed_writer (fun o ho hbit => openContent_opened ho hbit _) (hcontent _ _ _)
      fun completed m n hrun q p rest hpop => ?_
    cases completed with
    | true =>
      unfold closeMap closeLength
      rw [if_pos rfl, if_pos hwidth]
      exact Or.inl (closeContent_run _ hpop)
    | false =>
      unfold closeMap
      rw [if_neg Bool.false_ne_true, if_pos hwidth]
      exact Or.inr ⟨rfl, writeMapContent_left hrun⟩

theorem writeMapEmpty_writer {value : List (κ × ν)} (hkey : ∀ e ∈ value, Writer (key e.1))
    (hmapped : ∀ e ∈ value, Writer (mapped e.2)) : Writer (writeMapEmpty key mapped value) := by
  refine enclosed_writer (fun o ho hbit => openContent_opened ho hbit _)
    (writeEntries_writer hkey hmapped) fun completed m n hrun q p rest hpop => ?_
  cases completed with
  | true => exact Or.inl (closeMapEmpty_run hpop)
  | false => exact Or.inr ⟨rfl, writeEntries_left hrun⟩

end Entries

/-- A value of any nesting of types, written under any deployments. -/
inductive WriteOp : Write Unit → Prop
  | bool (value : Bool) : WriteOp (writeBool value)
  | integer (type : IntegerType) (depl : Option (IntegerDeployment type.size))
      (value : BitVec (8 * type.size)) : WriteOp (writeInteger type depl value)
  | float (value : BitVec 32) : WriteOp (writeFloat value)
  | double (value : BitVec 64) : WriteOp (writeDouble value)
  | rangedInteger (minimum maximum : ℤ) (depl : Option (IntegerDeployment 4)) (value : BitVec 32) :
      WriteOp (writeRangedInteger minimum maximum depl value)
  | enumerationEmpty (base : IntegerType) (value : BitVec (8 * base.size)) :
      WriteOp (writeEnumerationEmpty base value)
  | enumeration (base : IntegerType) (depl : Option (EnumerationDeployment base.size))
      (value : BitVec (8 * base.size)) : WriteOp (writeEnumeration base depl value)
  | version (major minor : BitVec 32) : WriteOp (writeVersion major minor)
  | string (depl : Option StringDeployment) (value : List Byte) : WriteOp (writeString depl value)
  | byteBuffer (depl : Option ByteBufferDeployment) (value : List Byte) :
      WriteOp (writeByteBuffer depl value)
  | noFields : WriteOp (pure ())
  | fields {first rest : Write Unit} (hfirst : WriteOp first) (hrest : WriteOp rest) :
      WriteOp (do
        first
        rest)
  | structEmpty {fields : Write Unit} (hfields : WriteOp fields) : WriteOp (writeStructEmpty fields)
  | struct (depl : Option StructDeployment) {fields : Write Unit} (hfields : WriteOp fields) :
      WriteOp (writeStruct depl fields)
  | nullStruct : WriteOp (writePolymorphicStruct none)
  | polymorphicStruct (serial : BitVec 32) {fields : Write Unit} (hfields : WriteOp fields) :
      WriteOp (writePolymorphicStruct (some (serial, fields)))
  | variant (depl : Option VariantDeployment) (maxValueType valueType : ℕ) {content : Write Unit}
      (hcontent : WriteOp content) : WriteOp (writeVariant depl maxValueType valueType content)
  | byteVector (depl : Option ArrayDeployment) (value : List Byte) :
      WriteOp (writeByteVector depl value)
  | vector {α : Type} (depl : Option ArrayDeployment) {element : α → Write Unit} {value : List α}
      (helement : ∀ a ∈ value, WriteOp (element a)) : WriteOp (writeVector depl element value)
  | map {κ ν : Type} (depl : Option MapDeployment) {key : κ → Write Unit}
      {mapped : ν → Write Unit} {value : List (κ × ν)} (hkey : ∀ e ∈ value, WriteOp (key e.1))
      (hmapped : ∀ e ∈ value, WriteOp (mapped e.2)) : WriteOp (writeMap depl key mapped value)
  | mapEmpty {κ ν : Type} {key : κ → Write Unit} {mapped : ν → Write Unit} {value : List (κ × ν)}
      (hkey : ∀ e ∈ value, WriteOp (key e.1)) (hmapped : ∀ e ∈ value, WriteOp (mapped e.2)) :
      WriteOp (writeMapEmpty key mapped value)

theorem WriteOp.writer {w : Write Unit} (h : WriteOp w) : Writer w := by
  induction h with
  | bool value => exact (writeBitValue_addsBits _ _ _ _).writer
  | integer type depl value => exact (writeBitValue_addsBits _ _ _ _).writer
  | float value => exact (writeBitValue_addsBits 4 value _ _).writer
  | double value => exact (writeBitValue_addsBits 8 value _ _).writer
  | rangedInteger minimum maximum depl value =>
    exact (writeRangedInteger_addsBits minimum maximum depl value).writer
  | enumerationEmpty base value => exact (writeBitValue_addsBits _ _ _ _).writer
  | enumeration base depl value => exact (writeEnumeration_addsBits base depl value).writer
  | version major minor => exact (writeVersion_addsBits major minor).writer
  | string depl value => exact (writeString_addsBits depl value).writer
  | byteBuffer depl value => exact (writeByteBuffer_addsBits depl value).writer
  | noFields => exact pure_writer _
  | fields _ _ ihfirst ihrest => exact respects_bind writes_composes ihfirst fun _ => ihrest
  | structEmpty _ ih => exact writeStructEmpty_writer ih
  | struct depl _ ih => exact writeStruct_writer depl ih
  | nullStruct => exact writePolymorphicStruct_writer nofun
  | polymorphicStruct serial _ ih =>
    refine writePolymorphicStruct_writer fun v hv => ?_
    cases hv
    exact ih
  | variant depl maxValueType valueType _ ih => exact writeVariant_writer depl maxValueType valueType ih
  | byteVector depl value => exact writeByteVector_writer depl value
  | vector depl _ ih => exact writeVector_writer depl ih
  | map depl _ _ ihkey ihmapped => exact writeMap_writer depl ihkey ihmapped
  | mapEmpty _ _ ihkey ihmapped => exact writeMapEmpty_writer ihkey ihmapped

/-- A write returns, unless it contains a string that cannot be transcoded. -/
theorem WriteOp.returns {w : Write Unit} (h : WriteOp w) {o : OutputStream} (ho : Clean o) :
    (∃ t extra new, w o = .ok ⟨⟩ t ∧ Wrote o t extra new) ∨
      ∃ e t, w o = .error e t ∧ Untranscodable e := by
  cases hrun : w o with
  | ok a t =>
    obtain ⟨extra, new, hwrote⟩ := h.writer.ok hrun ho
    exact Or.inl ⟨t, extra, new, rfl, hwrote⟩
  | error e t => exact Or.inr ⟨e, t, rfl, h.writer.error hrun ho⟩

end SomeIPRuntime.OutputStream
