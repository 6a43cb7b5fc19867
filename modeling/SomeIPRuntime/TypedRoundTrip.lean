import SomeIPRuntime.ItemLoops
import SomeIPRuntime.TypedFields

set_option autoImplicit false

namespace SomeIPRuntime.TypedValues
open Bits ProgramRuns Deployment
open InputStream (Read readElements pushElement readEntry)
open OutputStream (Clean Write WriteOp Writer Wrote fieldWidth writeElements writeEntries)
open RoundTrip

section Starts
variable {o m : OutputStream}

theorem payload_position (hm : Clean m) : m.payload.length = m.bits.length / 8 := by
  have hlen := hm.bits_length
  have hbit := hm.bit
  omega

theorem behindField_position (ho : Clean o) (width : ℕ) :
    (behindField width o).bits.length = contentStart o.bits.length width := by
  rcases openLength_position (OutputStream.aligned_appends ho).clean (OutputStream.aligned_currentBit o) width
    with ⟨m, hopen, _, hposition⟩
  cases (openLength_run width ho).1.symm.trans hopen
  rw [hposition, aligned_position ho]
  rfl

theorem behindField_order (ho : Clean o) (width : ℕ) :
    (behindField width o).isLittleEndian = o.isLittleEndian :=
  (ByteVectors.behindField_isLittleEndian width o).trans (OutputStream.aligned_appends ho).isLittleEndian

theorem unionStart_position (ho : Clean o) (depl : Option VariantDeployment) (maxValueType valueType : ℕ) :
    (unionStart depl maxValueType valueType o).bits.length = variantStart depl o.bits.length := by
  have hbit := OutputStream.aligned_currentBit o
  rcases unionHeader_position (OutputStream.aligned_appends ho).clean hbit (InputStream.sizeFirst depl)
    (InputStream.lengthWidth depl) (InputStream.typeWidth depl)
    (OutputStream.typeOf maxValueType valueType) with ⟨m, hrun, _, hposition⟩
  cases (writeUnionHeader_run hbit _ _ _ _).symm.trans hrun
  rw [aligned_position ho] at hposition
  exact hposition

theorem unionStart_order (ho : Clean o) (depl : Option VariantDeployment) (maxValueType valueType : ℕ) :
    (unionStart depl maxValueType valueType o).isLittleEndian = o.isLittleEndian :=
  (unionEntered_opened (OutputStream.aligned_appends ho).clean (OutputStream.aligned_currentBit o)
    _ _ _ _).isLittleEndian.trans (OutputStream.aligned_appends ho).isLittleEndian

end Starts

section Constituents
variable {α β : Type} {le : Bool} {n : ℕ} {value : α}

theorem Restores.map {write : Write Unit} {read : Read α} (h : Restores le n write read value) (f : α → β) :
    Restores le n write (f <$> read) (f value) := by
  intro o ho hle hn t s hrun herror hs
  rcases h o ho hle hn t s hrun herror hs with ⟨u, hread, hu⟩
  exact ⟨u, map_eq_ok.2 ⟨value, hread, rfl⟩, hu⟩

theorem nothing_restores : Restores le n (pure ()) (pure ()) () :=
  fun o ho _ _ => nothing_roundTrips.reads o ho

/-- The first of the constituents determines where the others begin. -/
theorem fields_restore {first rest : Write Unit} {readFirst : Read α} {readRest : Read β} {values : β}
    {after : ℕ → ℕ} (hfirst : Writer first) (hrest : Writer rest) (hends : Ends first after)
    (hvalue : Restores le n first readFirst value) (hvalues : Restores le (after n) rest readRest values) :
    Restores le n
      (do
        first
        rest)
      (do
        let value ← readFirst
        let values ← readRest
        pure (value, values)) (value, values) := by
  intro o ho hle hn t s hrun herror hs
  rcases bind_eq_ok.1 hrun with ⟨_, m, hm, ht⟩
  rcases hfirst.ok hm ho with ⟨_, _, hom⟩
  rcases hrest.ok ht hom.clean with ⟨_, _, hmt⟩
  have hquiet := quiet_before hmt herror
  have hshort := hs.short hmt.clean
  have hbits := hom.bits (hmt.length.trans_lt hshort)
  have hposition := hends o _ m ho hm hquiet (hmt.length.trans_lt hshort)
  rcases hvalue o ho hle hn m s hm hquiet (hs.first hbits (hmt.bits hshort)) with ⟨u, hread, hu⟩
  rcases hvalues m hom.clean (hom.isLittleEndian.trans hle) (hn ▸ hposition) t u ht herror
    (hs.rest hbits (hmt.bits hshort) hu) with ⟨v, hread', hv⟩
  exact ⟨v, (bind_ok hread).trans (bind_ok hread'), hu.trans hv⟩

theorem structEmpty_restores {fields : Write Unit} {read : Read α} (before : α)
    (hfields : Restores le (toByte n) fields read value) (hwrites : WriteOp fields) :
    Restores le n (OutputStream.writeStructEmpty fields)
      ((·.getD before) <$> InputStream.readStructEmpty read) value := by
  intro o ho hle hn t s hrun herror hs
  have halign := OutputStream.aligned_appends ho
  change (OutputStream.bitAlign >>= _) o = _ at hrun
  rw [bind_ok (OutputStream.bitAlign_run o)] at hrun
  rcases (OutputStream.respects_unlessError OutputStream.writes_composes hwrites.writer).ok hrun halign.clean
    with ⟨_, _, hwrote⟩
  rw [OutputStream.unlessError_run, if_neg (quiet_before hwrote herror ▸ Bool.false_ne_true)] at hrun
  have hstart := hs.aligned ho (hwrote.bits (hs.short hwrote.clean))
  rcases hfields _ halign.clean (halign.isLittleEndian.trans hle) (hn ▸ aligned_position ho) t _ hrun herror
    hstart with ⟨u, hread, hu⟩
  refine ⟨u, map_eq_ok.2 ⟨some value, ?_, rfl⟩, hu.faces,
    hu.message.trans (faces_aligned hs.faces ho).2.1, hu.errorOccurred⟩
  change (InputStream.bitAlign >>= _) s = _
  rw [bind_ok (InputStream.bitAlign_run s)]
  change (if (InputStream.aligned s).errorOccurred = true then pure none else _ : Read (Option α)) _ = _
  rw [if_neg (hstart.errorOccurred ▸ Bool.false_ne_true)]
  exact map_eq_ok.2 ⟨value, hread, rfl⟩

/-- The length field announces the fields, so that nothing is skipped behind them. -/
theorem readStruct_run {depl : Option StructDeployment} {fields : Read α} {itsSize : ℕ}
    {s u v : InputStream}
    (hread : InputStream.readWidth (structLengthWidth depl) true 0 (InputStream.aligned s) = .ok itsSize u)
    (hquiet : u.errorOccurred = false) (hfields : fields u = .ok value v)
    (hsize : structLengthWidth depl ≠ 0 → itsSize = wrapSub 64 u.remaining v.remaining) :
    InputStream.readStruct depl fields s = .ok (some value) v := by
  change (InputStream.bitAlign >>= _) s = _
  rw [bind_ok (InputStream.bitAlign_run s)]
  change (InputStream.readWidth (structLengthWidth depl) true 0 >>= _) (InputStream.aligned s) = _
  rw [bind_ok hread]
  change (if u.errorOccurred = true then pure none else
    InputStream.readStructFields (structLengthWidth depl) itsSize fields : Read (Option α)) u = _
  rw [if_neg (hquiet ▸ Bool.false_ne_true)]
  unfold InputStream.readStructFields
  rw [bind_ok (get_run u)]
  refine (bind_ok hfields).trans ?_
  by_cases hzero : structLengthWidth depl = 0
  · rw [if_neg (not_not_intro hzero)]
    rfl
  · rw [if_pos hzero, bind_ok (get_run v), hsize hzero, if_neg (lt_irrefl _)]
    rfl

theorem struct_restores (depl : Option StructDeployment) {fields : Write Unit} {read : Read α} (before : α)
    (hwidth : LengthWidth (structLengthWidth depl)) (hwrites : WriteOp fields)
    (hfields : Restores le (contentStart n (structLengthWidth depl)) fields read value) :
    Restores le n (OutputStream.writeStruct depl fields)
      ((·.getD before) <$> InputStream.readStruct depl read) value := by
  intro o ho hle hn t s hrun herror hs
  rcases openLength_run (structLengthWidth depl) ho with ⟨hopen, hclean⟩
  change (OutputStream.bitAlign >>= _) o = _ at hrun
  rw [bind_ok (OutputStream.bitAlign_run o)] at hrun
  change (OutputStream.openLength (structLengthWidth depl) >>= _) (OutputStream.aligned o) = _ at hrun
  rw [bind_ok hopen] at hrun
  rcases bind_eq_ok.1 hrun with ⟨_, k, hcontent, hclose⟩
  rcases (OutputStream.respects_unlessError OutputStream.writes_composes hwrites.writer).ok hcontent hclean
    with ⟨extra, new, hk⟩
  have hquiet := closeLength_quiet ho hk hclose herror
  obtain rfl := balanced hk hquiet
  rw [OutputStream.unlessError_run, if_neg (quiet_before hk hquiet ▸ Bool.false_ne_true)] at hcontent
  rcases content_receives hwidth ho hk hclose herror hs with ⟨u, hread, hu, hbehind⟩
  rcases hfields _ hclean ((behindField_order ho _).trans hle) (hn ▸ behindField_position ho _) k u hcontent
    hquiet hu with ⟨v, hvalue, hv⟩
  have hstruct := readStruct_run hread hu.errorOccurred hvalue fun hzero => by
    rw [if_neg hzero, hv.consumed hu.faces hclean hk.clean hk.length]
  exact ⟨v, map_eq_ok.2 ⟨some value, hstruct, rfl⟩, hbehind v hv⟩

theorem variant_restores (depl : Option VariantDeployment) (uninitialised : ℕ × ℕ)
    {alternatives : List (Read α)} {alternative : Read α} {content : Write Unit} {valueType maxValueType : ℕ}
    {after : ℕ → ℕ} (hmax : alternatives.length = maxValueType) (hcount : maxValueType ≤ 255)
    (hnumber : InputStream.IsNumber maxValueType valueType)
    (hget : alternatives[maxValueType - valueType]? = some alternative)
    (hlength : LengthWidth (InputStream.lengthWidth depl)) (htype : IsWidth (InputStream.typeWidth depl))
    (hwrites : WriteOp content) (hends : Ends content after)
    (hcontent : Restores le (variantStart depl n) content alternative value)
    (hfull : InputStream.lengthWidth depl = 0 →
      after (variantStart depl n) / 8 = variantStart depl n / 8 + unionMaxLength depl) :
    Restores le n (OutputStream.writeVariant depl maxValueType valueType content)
      (InputStream.readVariant uninitialised depl alternatives) (valueType, some value) := by
  intro o ho hle hn t s hrun herror hs
  subst hmax
  rcases writeVariant_ok hwrites ho hrun herror with ⟨k, hw⟩
  have hstart := (unionStart_clean depl alternatives.length valueType ho).1
  have hposition := unionStart_position ho depl alternatives.length valueType
  have horder := unionStart_order ho depl alternatives.length valueType
  have hback := hcontent _ hstart (horder.trans hle) (hn ▸ hposition)
  rw [hn] at hposition
  rcases hw.wrote with ⟨new, hk⟩
  have hshort : k.payload.length < 2 ^ 32 := by
    rcases (WriteOp.variant depl alternatives.length valueType hwrites).writer.ok hrun ho with ⟨_, _, hwrote⟩
    rw [← (closed_unmoved hw.closed).length]
    exact hs.short hwrote.clean
  have hend := hends _ _ k hstart hw.run hw.quiet hshort
  refine (variant_arrives_iff hcount hnumber hget hback ho hlength htype hw herror uninitialised hs).2 ?_
  by_cases hzero : InputStream.lengthWidth depl = 0
  · refine Or.inr ?_
    rw [payload_position hk.clean, payload_position hstart, hend, hposition, hfull hzero]
  · exact Or.inl hzero

end Constituents

section Items
variable {α : Type} {le : Bool} {lengthWidth : ℕ} {after : α → ℕ → ℕ} {m k n : OutputStream}
  {item : α} {rest : List α}

/-- The last item completes a byte, so there is one left before each of the items. -/
theorem chain_cons {next : List α → Read (Option (List α))} {taken : List α} {extra : List ℕ}
    {new : List OutputStream.Event} (hm : Clean m) (hwrote : Wrote m k extra new)
    (hread : ∀ s, Receives s m k → ∃ u, next taken s = .ok (some (taken ++ [item])) u ∧ Arrived s u k)
    (hend : k.bits.length = after item m.bits.length)
    (hlast : lengthWidth ≠ 0 → LastItemCompletes after (item :: rest) m.bits.length)
    (hrest : (lengthWidth ≠ 0 → LastItemCompletes after rest k.bits.length) →
      Chain lengthWidth List.length next (fun items a => items ++ [a]) rest (taken ++ [item]) k n) :
    Chain lengthWidth List.length next (fun items a => items ++ [a]) (item :: rest) taken m n := by
  have hnext : lengthWidth ≠ 0 → LastItemCompletes after rest k.bits.length := by
    intro hne
    cases rest with
    | nil => exact trivial
    | cons next rest => exact hend ▸ hlast hne
  have hchain := hrest hnext
  have hsize : (taken ++ [item]).length = taken.length + 1 := List.length_append
  refine Chain.cons hwrote hread hsize (fun hne => ?_) hchain
  have hle := hwrote.length
  cases hchain with
  | nil =>
    have hlt : m.bits.length / 8 < after item m.bits.length / 8 := hlast hne
    rw [← hend, ← payload_position hm, ← payload_position hwrote.clean] at hlt
    exact hlt
  | cons _ _ _ hmore _ => exact hle.trans_lt (hmore hne)

theorem appended_all (taken items : List α) :
    items.foldl (fun taken item => taken ++ [item]) taken = taken ++ items := by
  induction items generalizing taken with
  | nil => exact (List.append_nil taken).symm
  | cons item rest ih =>
    rw [List.foldl_cons, ih, List.append_assoc]
    rfl

structure Coding (le : Bool) (write : α → Write Unit) (read : Read α) (after : α → ℕ → ℕ)
    (condition : α → ℕ → Prop) (value : α) : Prop where
  writes : WriteOp (write value)
  ends : Ends (write value) (after value)
  restores : ∀ n, condition value n → Restores le n (write value) read value

theorem elements_chain {element : α → Write Unit} {read : Read α} {condition : α → ℕ → Prop}
    {value : List α} (helement : ∀ a ∈ value, Coding le element read after condition a) (hm : Clean m)
    (hle : m.isLittleEndian = le) (hrun : writeElements element value m = .ok ⟨⟩ n)
    (herror : n.errorOccurred = false) (hshort : n.payload.length < 2 ^ 32)
    (heach : EachItem after condition value m.bits.length)
    (hlast : lengthWidth ≠ 0 → LastItemCompletes after value m.bits.length) (taken : List α) :
    Chain lengthWidth List.length (pushElement read) (fun items a => items ++ [a]) value taken m n := by
  induction value generalizing m taken with
  | nil =>
    cases hrun
    exact .nil taken _
  | cons a rest ih =>
    have ha := helement a List.mem_cons_self
    have hrest := fun b hb => helement b (List.mem_cons_of_mem a hb)
    rcases writeElements_cons hrun herror with ⟨k, hfirst, hquiet, hnext⟩
    rcases ha.writes.writer.ok hfirst hm with ⟨_, _, hmk⟩
    rcases (OutputStream.writeElements_writer fun b hb => (hrest b hb).writes.writer).ok hnext hmk.clean with
      ⟨_, _, hkn⟩
    have hend := ha.ends m _ k hm hfirst hquiet (hkn.length.trans_lt hshort)
    refine chain_cons hm hmk (fun s hs => ?_) hend hlast fun hlast' => ?_
    · rcases ha.restores _ heach.1 m hm hle rfl k s hfirst hquiet hs with ⟨u, hread, hu⟩
      exact ⟨u, pushElement_run taken hread hu.errorOccurred, hu⟩
    · exact ih hrest hmk.clean (hmk.isLittleEndian.trans hle) hnext (hend ▸ heach.2) hlast' _

theorem vector_restores (depl : Option ArrayDeployment) {element : α → Write Unit} {read : Read α}
    {condition : α → ℕ → Prop} {value : List α} {p fuel : ℕ} (hwidth : LengthWidth (arrayLengthWidth depl))
    (helement : ∀ a ∈ value, Coding le element read after condition a)
    (heach : EachItem after condition value (contentStart p (arrayLengthWidth depl)))
    (hlast : arrayLengthWidth depl ≠ 0 →
      LastItemCompletes after value (contentStart p (arrayLengthWidth depl)))
    (hfuel : value.length ≤ fuel) :
    Restores le p (OutputStream.writeVector depl element value) (InputStream.readVector fuel depl read)
      value := by
  intro o ho hle hp t s hrun herror hs
  have hwriters := fun a ha => (helement a ha).writes.writer
  rcases writeVector_ok hwriters ho hrun herror with ⟨hallowed, k, helements, hquiet, hclose⟩
  have hclean := (openLength_run (arrayLengthWidth depl) ho).2
  have hposition := behindField_position ho (arrayLengthWidth depl)
  change writeElements element value (behindField (arrayLengthWidth depl) o) = _ at helements
  rcases (OutputStream.writeElements_writer hwriters).ok helements hclean with ⟨extra, new, hk⟩
  obtain rfl := balanced hk hquiet
  rcases content_receives hwidth ho hk hclose herror hs with ⟨u, hread, hu, hbehind⟩
  rw [hp] at hposition
  have hchain := elements_chain helement hclean ((behindField_order ho _).trans hle) helements
    hquiet (hu.short hk.clean) (hposition ▸ heach) (hposition ▸ hlast) []
  have hmax : arrayLengthWidth depl = 0 →
      (depl.map (·.arrayMaxLength)).getD 0xFFFFFFFF = ([] : List α).length + value.length := by
    intro hzero
    unfold VectorAllowed SizeAllowed at hallowed
    rw [if_neg (not_not_intro hzero)] at hallowed
    rw [hallowed]
    exact (Nat.zero_add _).symm
  rcases hchain.back hclean hmax hfuel hu with ⟨w, hloop, hw⟩
  rw [appended_all, List.nil_append] at hloop
  rcases readVector_run hread hu.errorOccurred hloop with ⟨v, hvector, hv⟩
  cases hv hallowed
  exact ⟨_, hvector, hbehind _ hw⟩

end Items

section Entries
variable {κ ν : Type} [DecidableEq κ] {le : Bool} {lengthWidth p fuel : ℕ} {key : κ → Write Unit}
  {mapped : ν → Write Unit} {readKey : Read κ} {readMapped : Read ν} {afterKey : κ → ℕ → ℕ}
  {afterMapped : ν → ℕ → ℕ} {keyCondition : κ → ℕ → Prop} {mappedCondition : ν → ℕ → Prop}
  {value : List (κ × ν)} {m n : OutputStream}

def afterEntry (afterKey : κ → ℕ → ℕ) (afterMapped : ν → ℕ → ℕ) (entry : κ × ν) (n : ℕ) : ℕ :=
  afterMapped entry.2 (afterKey entry.1 n)

def EntryCondition (afterKey : κ → ℕ → ℕ) (keyCondition : κ → ℕ → Prop) (mappedCondition : ν → ℕ → Prop)
    (entry : κ × ν) (n : ℕ) : Prop :=
  keyCondition entry.1 n ∧ mappedCondition entry.2 (afterKey entry.1 n)

theorem entries_chain (hkey : ∀ e ∈ value, Coding le key readKey afterKey keyCondition e.1)
    (hmapped : ∀ e ∈ value, Coding le mapped readMapped afterMapped mappedCondition e.2) (hm : Clean m)
    (hle : m.isLittleEndian = le) (hrun : writeEntries key mapped value m = .ok true n)
    (herror : n.errorOccurred = false) (hshort : n.payload.length < 2 ^ 32)
    (heach : EachItem (afterEntry afterKey afterMapped)
      (EntryCondition afterKey keyCondition mappedCondition) value m.bits.length)
    (hlast : lengthWidth ≠ 0 →
      LastItemCompletes (afterEntry afterKey afterMapped) value m.bits.length)
    (taken : List (κ × ν)) (hkeys : ((taken ++ value).map Prod.fst).Nodup) :
    Chain lengthWidth List.length (readEntry readKey readMapped) (fun entries e => entries ++ [e]) value taken
      m n := by
  induction value generalizing m taken with
  | nil =>
    cases hrun
    exact .nil taken _
  | cons entry rest ih =>
    have hfirstKey := hkey entry List.mem_cons_self
    have hfirstMapped := hmapped entry List.mem_cons_self
    have hkey' := fun e he => hkey e (List.mem_cons_of_mem entry he)
    have hmapped' := fun e he => hmapped e (List.mem_cons_of_mem entry he)
    rcases writeEntries_cons hrun herror with ⟨j, k, hfirst, hj, hsecond, hk, hnext⟩
    rcases hfirstKey.writes.writer.ok hfirst hm with ⟨_, _, hmj⟩
    rcases hfirstMapped.writes.writer.ok hsecond hmj.clean with ⟨_, _, hjk⟩
    rcases (OutputStream.writeEntries_writer (fun e he => (hkey' e he).writes.writer) fun e he =>
      (hmapped' e he).writes.writer).ok hnext hjk.clean with ⟨_, _, hkn⟩
    have hkshort := hkn.length.trans_lt hshort
    have hjend := hfirstKey.ends m _ j hm hfirst hj (hjk.length.trans_lt hkshort)
    have hkend := hfirstMapped.ends j _ k hmj.clean hsecond hk hkshort
    rw [hjend] at hkend
    refine chain_cons hm (hmj.trans hjk) (fun s hs => ?_) hkend hlast fun hlast' => ?_
    · have hjbits := hmj.bits (hjk.length.trans_lt hkshort)
      have hkbits := hjk.bits hkshort
      rcases hfirstKey.restores _ heach.1.1 m hm hle rfl j s hfirst hj (hs.first hjbits hkbits) with
        ⟨u, hread, hu⟩
      rcases hfirstMapped.restores _ heach.1.2 j hmj.clean (hmj.isLittleEndian.trans hle) hjend k u hsecond hk
        (hs.rest hjbits hkbits hu) with ⟨w, hread', hw⟩
      have hnew : entry.1 ∉ taken.map Prod.fst := by
        rw [List.map_append, List.map_cons] at hkeys
        exact fun hmem => (List.nodup_append.1 hkeys).2.2 _ hmem _ List.mem_cons_self rfl
      have hentry := readEntry_run taken hread hu.errorOccurred hread' hw.errorOccurred
      rw [insertEntry_new hnew] at hentry
      exact ⟨w, hentry, hu.trans hw⟩
    · rw [List.append_cons] at hkeys
      exact ih hkey' hmapped' hjk.clean (hjk.isLittleEndian.trans (hmj.isLittleEndian.trans hle)) hnext
        (hkend ▸ heach.2) hlast' _ hkeys

theorem map_restores (depl : Option MapDeployment) (hwidth : LengthWidth (mapLengthWidth depl))
    (hkey : ∀ e ∈ value, Coding le key readKey afterKey keyCondition e.1)
    (hmapped : ∀ e ∈ value, Coding le mapped readMapped afterMapped mappedCondition e.2)
    (hkeys : (value.map Prod.fst).Nodup)
    (heach : EachItem (afterEntry afterKey afterMapped)
      (EntryCondition afterKey keyCondition mappedCondition) value (contentStart p (mapLengthWidth depl)))
    (hlast : mapLengthWidth depl ≠ 0 → LastItemCompletes (afterEntry afterKey afterMapped) value
      (contentStart p (mapLengthWidth depl)))
    (hfuel : value.length ≤ fuel) :
    Restores le p (OutputStream.writeMap depl key mapped value)
      (InputStream.readMap fuel depl readKey readMapped) value := by
  intro o ho hle hp t s hrun herror hs
  have hwriter := OutputStream.writeEntries_writer (fun e he => (hkey e he).writes.writer) fun e he =>
    (hmapped e he).writes.writer
  rcases writeMap_ok hwriter ho hrun herror with ⟨hallowed, k, hentries, hquiet, hclose⟩
  have hclean := (openLength_run (mapLengthWidth depl) ho).2
  have hposition := behindField_position ho (mapLengthWidth depl)
  rcases hwriter.ok hentries hclean with ⟨extra, new, hk⟩
  obtain rfl := balanced hk hquiet
  rcases content_receives hwidth ho hk hclose herror hs with ⟨u, hread, hu, hbehind⟩
  rw [hp] at hposition
  have hchain := entries_chain hkey hmapped hclean ((behindField_order ho _).trans hle) hentries
    hquiet (hu.short hk.clean) (hposition ▸ heach) (hposition ▸ hlast) [] hkeys
  have hmax : mapLengthWidth depl = 0 → mapMaxLength depl = ([] : List (κ × ν)).length + value.length := by
    intro hzero
    unfold MapAllowed SizeAllowed at hallowed
    rw [if_neg (not_not_intro hzero)] at hallowed
    rw [hallowed]
    exact (Nat.zero_add _).symm
  rcases hchain.back hclean hmax hfuel hu with ⟨w, hloop, hw⟩
  rw [appended_all, List.nil_append] at hloop
  exact ⟨w, readMap_run hread hu.errorOccurred hloop hallowed, hbehind w hw⟩

theorem mapEmpty_restores (hkey : ∀ e ∈ value, Coding le key readKey afterKey keyCondition e.1)
    (hmapped : ∀ e ∈ value, Coding le mapped readMapped afterMapped mappedCondition e.2)
    (hkeys : (value.map Prod.fst).Nodup)
    (heach : EachItem (afterEntry afterKey afterMapped)
      (EntryCondition afterKey keyCondition mappedCondition) value (contentStart p 4))
    (hlast : LastItemCompletes (afterEntry afterKey afterMapped) value (contentStart p 4))
    (hfuel : value.length ≤ fuel) :
    Restores le p (OutputStream.writeMapEmpty key mapped value)
      (InputStream.readMapEmpty fuel readKey readMapped) value := by
  intro o ho hle hp t s hrun herror hs
  have hwriter := OutputStream.writeEntries_writer (fun e he => (hkey e he).writes.writer) fun e he =>
    (hmapped e he).writes.writer
  have hopened := entered_opened (OutputStream.aligned_appends ho).clean (OutputStream.aligned_currentBit o) 4
  have hposition := behindField_position ho 4
  have horder := behindField_order ho 4
  change (entered 4 (OutputStream.aligned o)).bits.length = _ at hposition
  change (entered 4 (OutputStream.aligned o)).isLittleEndian = _ at horder
  rcases writeMapEmpty_ok hwriter ho hrun herror with ⟨k, new, hentries, hquiet, hk, ht⟩
  rcases mapEmpty_receives ho hk ht herror hs with ⟨u, hread, hu, hbehind⟩
  rw [hp] at hposition
  have hchain : Chain 4 _ _ _ value [] _ k := entries_chain hkey hmapped hopened.clean (horder.trans hle)
    hentries hquiet (hu.short hk.clean) (hposition ▸ heach) (fun _ => hposition ▸ hlast) [] hkeys
  have hcounted : (4 : ℕ) = 0 → 0 = ([] : List (κ × ν)).length + value.length := nofun
  rcases hchain.back hopened.clean hcounted hfuel hu with ⟨w, hloop, hw⟩
  rw [appended_all, List.nil_append] at hloop
  exact ⟨w, readMapEmpty_run hread hloop, hbehind w hw⟩

end Entries

section Types
variable (before : (type : DataType) → type.Value) (uninitialised : ℕ × ℕ) (fuel : ℕ)

theorem DataTypes.number_isNumber : ∀ (types : DataTypes) (alternative : types.Alternative),
    InputStream.IsNumber types.length (types.number alternative)
  | .cons _ rest, .inl _ => ⟨Nat.succ_pos rest.length, le_rfl⟩
  | .cons _ rest, .inr alternative =>
    have h := rest.number_isNumber alternative
    ⟨h.1, Nat.le_succ_of_le h.2⟩

def DataTypes.readStored : (types : DataTypes) → types.Alternative → Read types.Alternative
  | .cons first _, .inl _ => Sum.inl <$> first.read before uninitialised fuel
  | .cons _ rest, .inr alternative => Sum.inr <$> rest.readStored alternative

theorem DataTypes.readAlternatives_length (types : DataTypes) :
    (types.readAlternatives before uninitialised fuel).length = types.length := by
  cases types with
  | nil => rfl
  | cons _ rest =>
    have hrest := rest.readAlternatives_length
    change ((rest.readAlternatives before uninitialised fuel).map _).length + 1 = rest.length + 1
    rw [List.length_map, hrest]

theorem DataTypes.readAlternatives_stored : ∀ (types : DataTypes) (alternative : types.Alternative),
    (types.readAlternatives before uninitialised fuel)[types.length - types.number alternative]? =
      some (types.readStored before uninitialised fuel alternative)
  | .cons _ rest, .inl _ => by
    change (_ :: _)[rest.length + 1 - (rest.length + 1)]? = _
    rw [Nat.sub_self]
    rfl
  | .cons _ rest, .inr alternative => by
    have hnumber := (rest.number_isNumber alternative).2
    have hstored := rest.readAlternatives_stored alternative
    change (_ :: (rest.readAlternatives before uninitialised fuel).map _)[rest.length + 1 -
      rest.number alternative]? = _
    rw [Nat.succ_sub hnumber, List.getElem?_cons_succ, List.getElem?_map, hstored]
    rfl

theorem longest_le {α : Type} {longest : α → ℕ} {value : List α}
    (h : (value.map longest).foldr max 0 ≤ fuel) : ∀ a ∈ value, longest a ≤ fuel := by
  induction value with
  | nil => exact fun a ha => absurd ha List.not_mem_nil
  | cons b rest ih =>
    intro a ha
    rw [List.map_cons, List.foldr_cons, max_le_iff] at h
    rcases List.mem_cons.1 ha with rfl | ha
    · exact h.1
    · exact ih h.2 a ha

variable {before uninitialised fuel} {le : Bool}

mutual

theorem DataType.restores : ∀ (type : DataType) (value : type.Value) (n : ℕ), type.Sendable le value n →
    type.longest value ≤ fuel →
    Restores le n (type.write value) (type.read before uninitialised fuel) value
  | .bool, value, _, h, _ => bool_restores value h
  | .integer type depl, value, _, h, _ => integer_restores type depl value h
  | .rangedInteger minimum maximum depl, value, _, h, _ =>
    rangedInteger_restores minimum maximum depl value _ h
  | .float, value, _, h, _ => floating_restores (show 0 < 4 by decide) value h
  | .double, value, _, h, _ => floating_restores (show 0 < 8 by decide) value h
  | .version, value, _, _, _ => version_restores value
  | .enumerationEmpty base, value, _, h, _ => enumerationEmpty_restores base value h
  | .enumeration base depl, value, _, h, _ => enumeration_restores base depl value h.1 h.2.1 h.2.2
  | .string depl, value, _, h, _ => string_restores depl value _ h.1 h.2
  | .byteBuffer depl, value, _, h, _ => byteBuffer_restores depl value h.1 h.2
  | .byteVector depl, value, _, h, _ => byteVector_restores depl value h
  | .structEmpty fields, values, n, h, hfuel =>
    structEmpty_restores _ (fields.restoreFields values (toByte n) h hfuel) (fields.fields_write values)
  | .struct depl fields, values, _, h, hfuel =>
    struct_restores depl _ h.1 (fields.fields_write values) (fields.restoreFields values _ h.2 hfuel)
  | .variant depl alternatives, (_, some alternative), _, h, hfuel => by
    rcases h with ⟨hcount, rfl, hlength, htype, hsendable, hfull⟩
    exact variant_restores depl uninitialised (alternatives.readAlternatives_length _ _ _) hcount
      (alternatives.number_isNumber alternative) (alternatives.readAlternatives_stored _ _ _ alternative) hlength
      htype (alternatives.alternative_writes alternative) (alternatives.writeAlternative_ends alternative)
      (alternatives.restoreAlternative alternative _ hsendable hfuel) hfull
  | .vector depl element, values, _, h, hfuel =>
    have hlongest := max_le_iff.1 hfuel
    have hitems := longest_le fuel hlongest.2
    vector_restores depl h.1 (fun value hvalue => ⟨element.writes value, element.write_ends value,
      fun m hm => element.restores value m hm (hitems value hvalue)⟩) h.2.1 h.2.2 hlongest.1
  | .map depl key mapped, entries, _, h, hfuel =>
    have hlongest := max_le_iff.1 hfuel
    have hitems := fun entry hentry => max_le_iff.1 (longest_le fuel hlongest.2 entry hentry)
    map_restores depl h.1
      (fun entry hentry => ⟨key.writes entry.1, key.write_ends entry.1,
        fun m hm => key.restores entry.1 m hm (hitems entry hentry).1⟩)
      (fun entry hentry => ⟨mapped.writes entry.2, mapped.write_ends entry.2,
        fun m hm => mapped.restores entry.2 m hm (hitems entry hentry).2⟩)
      h.2.1 h.2.2.1 h.2.2.2 hlongest.1
  | .mapEmpty key mapped, entries, _, h, hfuel =>
    have hlongest := max_le_iff.1 hfuel
    have hitems := fun entry hentry => max_le_iff.1 (longest_le fuel hlongest.2 entry hentry)
    mapEmpty_restores
      (fun entry hentry => ⟨key.writes entry.1, key.write_ends entry.1,
        fun m hm => key.restores entry.1 m hm (hitems entry hentry).1⟩)
      (fun entry hentry => ⟨mapped.writes entry.2, mapped.write_ends entry.2,
        fun m hm => mapped.restores entry.2 m hm (hitems entry hentry).2⟩)
      h.1 h.2.1 h.2.2 hlongest.1

theorem DataTypes.restoreFields : ∀ (types : DataTypes) (values : types.Values) (n : ℕ),
    types.SendableFields le values n → types.longestField values ≤ fuel →
    Restores le n (types.writeFields values) (types.readFields before uninitialised fuel) values
  | .nil, _, _, _, _ => nothing_restores
  | .cons first rest, (value, values), n, h, hfuel =>
    have hlongest := max_le_iff.1 hfuel
    fields_restore (first.writes value).writer (rest.fields_write values).writer (first.write_ends value)
      (first.restores value n h.1 hlongest.1) (rest.restoreFields values _ h.2 hlongest.2)

theorem DataTypes.restoreAlternative : ∀ (types : DataTypes) (alternative : types.Alternative) (n : ℕ),
    types.SendableAlternative le alternative n → types.longestAlternative alternative ≤ fuel →
    Restores le n (types.writeAlternative alternative)
      (types.readStored before uninitialised fuel alternative) alternative
  | .cons first _, .inl value, n, h, hfuel => (first.restores value n h hfuel).map Sum.inl
  | .cons _ rest, .inr alternative, n, h, hfuel => (rest.restoreAlternative alternative n h hfuel).map Sum.inr

end

/-- How many bits a value takes depends on the value and on the bit position in front of it only. -/
theorem nested_value_ends (type : DataType) (value : type.Value) {o t : OutputStream} (ho : Clean o)
    (hrun : type.write value o = .ok ⟨⟩ t) (herror : t.errorOccurred = false)
    (hshort : t.payload.length < 2 ^ 32) : t.bits.length = type.after value o.bits.length :=
  type.write_ends value o ⟨⟩ t ho hrun herror hshort

/-- A value of any nesting that has been written without an error is read back in front of any
    other data, if it comes back from the bit position at which it has been written. -/
theorem nested_value_round_trips (type : DataType) (value : type.Value) {o t : OutputStream} (ho : Clean o)
    (hsendable : type.Sendable o.isLittleEndian value o.bits.length)
    (hrun : type.write value o = .ok ⟨⟩ t) (herror : t.errorOccurred = false)
    (hfuel : type.longest value ≤ fuel) :
    ReadInFront (type.read before uninitialised fuel) value o t := by
  rcases (type.writes value).writer.ok hrun ho with ⟨_, _, hwrote⟩
  rw [readInFront_iff hwrote.clean hwrote.bits herror]
  exact fun s hs => type.restores value o.bits.length hsendable hfuel o ho rfl rfl t s hrun herror hs

/-- What is written for a value does not begin what is written for another value of its type, so that no
    data belongs to two values. -/
theorem no_value_begins_another (type : DataType) {value other : type.Value} {o t u : OutputStream} (ho : Clean o)
    (hvalue : type.Sendable o.isLittleEndian value o.bits.length)
    (hother : type.Sendable o.isLittleEndian other o.bits.length) (hne : value ≠ other)
    (hrun : type.write value o = .ok ⟨⟩ t) (herror : t.errorOccurred = false)
    (hrun' : type.write other o = .ok ⟨⟩ u) (herror' : u.errorOccurred = false)
    (hshort : (OutputStream.aligned u).payload.length < 2 ^ 32) :
    ¬ t.bits.drop o.bits.length <+: u.bits.drop o.bits.length := by
  intro hbegins
  rcases (type.writes other).writer.ok hrun' ho with ⟨_, _, hwrote⟩
  have hfits : u.payload.length < 2 ^ 32 := by
    unfold OutputStream.aligned at hshort
    split at hshort
    · rw [List.length_append] at hshort
      omega
    · exact hshort
  rcases receives_exists hwrote.clean (hwrote.bits hfits) hshort with ⟨s, hs⟩
  have hread : ∃ v, type.read DataType.initial (0, 0) (max (type.longest value) (type.longest other)) s =
      .ok value v ∧ Arrived s v t :=
    type.restores value _ hvalue (le_max_left _ _) o ho rfl rfl t s hrun herror
      ⟨hs.faces, hs.errorOccurred, hbegins.trans hs.ahead⟩
  have hread' : ∃ v, type.read DataType.initial (0, 0) (max (type.longest value) (type.longest other)) s =
      .ok other v ∧ Arrived s v u :=
    type.restores other _ hother (le_max_right _ _) o ho rfl rfl u s hrun' herror' hs
  rcases hread with ⟨v, hread, -⟩
  rcases hread' with ⟨v', hread', -⟩
  rw [hread] at hread'
  cases hread'
  exact hne rfl

end Types

def nibble : DataType := .enumeration uint8 (some ⟨4, false, none⟩)

def nibbleRecords : DataType :=
  .vector none (.struct none (.cons (.integer uint8 none) (.cons (.vector (some ⟨0, 0, 1⟩) nibble) .nil)))

def twoRecords : nibbleRecords.Value :=
  show List (BitVec 8 × List (BitVec 8) × Unit) from [(7, [1, 2], ()), (8, [3, 4, 5, 6], ())]

theorem nibble_sendable (value : nibble.Value) (hvalue : BitVec.toNat (w := 8) value < 2 ^ 4) (n : ℕ) :
    nibble.Sendable false value n := by
  refine ⟨by decide, fun d hd => ?_, ?_⟩
  · cases hd
    exact ⟨by decide, by decide, hvalue⟩
  · refine Or.inl ⟨by decide, Or.inr fun i hi _ => ?_⟩
    exact Nat.testBit_lt_two_pow (hvalue.trans_le (Nat.pow_le_pow_right Nat.two_pos hi))

theorem byte_survives (value : BitVec 8) : IntegerSurvives false uint8 none value := ⟨by decide, nofun⟩

theorem two_records_end :
    (finalState (nibbleRecords.write twoRecords (OutputStream.create false))).bits.length =
      nibbleRecords.after twoRecords (OutputStream.create false).bits.length :=
  nested_value_ends nibbleRecords twoRecords (OutputStream.create_clean false)
    (eq_ok_of_returned (by decide +kernel)) (by decide +kernel) (by decide +kernel)

theorem two_records_sendable : nibbleRecords.Sendable false twoRecords 0 :=
  ⟨Or.inr (by decide),
    ⟨⟨Or.inl rfl, byte_survives 7, ⟨Or.inr (by decide),
        ⟨nibble_sendable 1#8 (by decide) _, nibble_sendable 2#8 (by decide) _, trivial⟩,
        fun _ => by change _ < _; decide⟩, trivial⟩,
      ⟨Or.inl rfl, byte_survives 8, ⟨Or.inr (by decide),
        ⟨nibble_sendable 3#8 (by decide) _, nibble_sendable 4#8 (by decide) _, nibble_sendable 5#8 (by decide) _,
          nibble_sendable 6#8 (by decide) _, trivial⟩,
        fun _ => by change _ < _; decide⟩, trivial⟩, trivial⟩,
    fun _ => by change _ < _; decide⟩

def oneRecord : nibbleRecords.Value := show List (BitVec 8 × List (BitVec 8) × Unit) from [(7, [1, 2], ())]

theorem one_record_sendable : nibbleRecords.Sendable false oneRecord 0 :=
  ⟨Or.inr (by decide),
    ⟨⟨Or.inl rfl, byte_survives 7, ⟨Or.inr (by decide),
        ⟨nibble_sendable 1#8 (by decide) _, nibble_sendable 2#8 (by decide) _, trivial⟩,
        fun _ => by change _ < _; decide⟩, trivial⟩, trivial⟩,
    fun _ => by change _ < _; decide⟩

theorem one_record_begins_nothing :
    ¬ (finalState (nibbleRecords.write oneRecord (OutputStream.create false))).bits.drop 0 <+:
      (finalState (nibbleRecords.write twoRecords (OutputStream.create false))).bits.drop 0 :=
  no_value_begins_another nibbleRecords (OutputStream.create_clean false) one_record_sendable two_records_sendable
    (by decide) (eq_ok_of_returned (by decide +kernel)) (by decide +kernel)
    (eq_ok_of_returned (by decide +kernel)) (by decide +kernel) (by decide +kernel)

theorem two_records_round_trip :
    ReadInFront (nibbleRecords.read DataType.initial (0, 0) 4) twoRecords (OutputStream.create false)
      (finalState (nibbleRecords.write twoRecords (OutputStream.create false))) :=
  nested_value_round_trips nibbleRecords twoRecords (OutputStream.create_clean false)
    two_records_sendable (eq_ok_of_returned (by decide +kernel)) (by decide +kernel) (by decide +kernel)

end SomeIPRuntime.TypedValues
