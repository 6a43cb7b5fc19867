import SomeIPRuntime.PayloadEnd
import SomeIPRuntime.RemoteCalls
import SomeIPRuntime.WholeByteTypes

set_option autoImplicit false

namespace SomeIPRuntime.TypedValues
open Bits ProgramRuns Deployment
open InputStream (Read Decoder HeaderSteps Sound Forward TerminatesIn everyRun QuietAtEnd logged)
open RoundTrip
open Serialization StubDispatchers RemoteCalls

mutual

def DataType.bounded : DataType → Bool
  | .structEmpty fields => fields.allBounded
  | .struct _ fields => fields.allBounded
  | .variant _ alternatives => alternatives.allBounded
  | .vector depl element => element.bounded && (arrayLengthWidth depl = 0 || element.demands)
  | .map _ key mapped => key.bounded && mapped.bounded && (key.demands || mapped.demands)
  | .mapEmpty key mapped => key.bounded && mapped.bounded && (key.demands || mapped.demands)
  | _ => true

def DataTypes.allBounded : DataTypes → Bool
  | .nil => true
  | .cons first rest => first.bounded && rest.allBounded

end

def SoundOf (length : ℕ) (s : InputStream) : Prop := Sound s ∧ s.message.body.length = length

abbrev Finishes {α : Type} (length : ℕ) (x : Read α) : Prop :=
  Respects (fun s t => SoundOf length s → SoundOf length t)
    (fun s e (_ : InputStream) => SoundOf length s → e ≠ Halt.outOfFuel) x

section Ending
variable {α β : Type} {length : ℕ}

theorem finishes_composes : Composes (fun s t => SoundOf length s → SoundOf length t)
    (fun s e (_ : InputStream) => SoundOf length s → e ≠ Halt.outOfFuel) where
  refl _ := id
  trans h k := k ∘ h
  absorb h k := k ∘ h

theorem finishes_of {x : Read α} (hforward : Forward x)
    (h : ∀ s, SoundOf length s → halted (x s) ≠ some .outOfFuel) : Finishes length x := by
  intro s
  have hs := h s
  cases hrun : x s with
  | ok a t =>
    intro hsound
    have hadvances := hforward.ok hrun
    exact ⟨hadvances.sound hsound.1, by rw [hadvances.message, hsound.2]⟩
  | error e t =>
    rw [hrun] at hs
    exact fun hsound heq => hs hsound (congrArg some heq)

theorem assignBits_finishes {size bits : ℕ} {isSigned : Bool} {cast : BitVec (8 * size) → β} {invalid : Option β} :
    Finishes length (InputStream.assignBits size bits isSigned cast invalid) :=
  finishes_of (InputStream.assignBits_forward _ _ _ _ _) fun _ hs => InputStream.assignBits_halted hs.1

theorem ignoreBits_finishes {size bits : ℕ} {isSigned : Bool} :
    Finishes length (InputStream.ignoreBits size bits isSigned) := by
  refine finishes_of (InputStream.ignoreBits_forward _ _ _) fun s hs => ?_
  have hlog : Sound (logged (.ignore (clampBits size bits)) s) := ⟨hs.1.bit, hs.1.inside⟩
  rw [InputStream.ignoreBits_run]
  rcases InputStream.readField_cases hlog isSigned (InputStream.clampBits_le size bits) with
    ⟨_, hrun⟩ | ⟨_, _, _, hrun⟩ | ⟨_, _, u, hrun⟩
  · rw [hrun]
    exact nofun
  · rw [hrun]
    exact nofun
  · rw [hrun]
    change some Halt.outOfBounds ≠ some .outOfFuel
    decide

theorem decodeString_halts {size : ℕ} (encoding : StringEncoding) :
    ∀ e, InputStream.decodeString [] size encoding = .error e → e ≠ .outOfFuel := by
  intro e h
  by_cases hsize : size ≤ 3
  · rw [InputStream.decodeString_short [] encoding hsize] at h
    cases h
  · have hrun : InputStream.decodeString [] size encoding = .error .outOfBounds := by
      unfold InputStream.decodeString StringEncoder.checkBom
      rw [if_pos (Nat.lt_of_not_le hsize)]
      cases encoding <;> rfl
    cases h.symm.trans hrun
    decide

theorem string_finishes {itsSize : ℕ} (encoding : StringEncoding) {s : InputStream} (hsize : itsSize ≤ s.remaining)
    (hs : Sound s) : halted (InputStream.readStringData itsSize encoding s) ≠ some .outOfFuel := by
  cases hdecode : InputStream.decodeString (s.message.body.drop s.current) itsSize encoding with
  | ok r =>
    rcases r with ⟨isError, value⟩
    rw [InputStream.readStringData_run hdecode]
    exact nofun
  | error e =>
    rw [InputStream.readStringData_halt hdecode]
    intro heq
    have hfuel := Option.some.inj heq
    by_cases hin : s.current ≤ s.message.body.length
    · have hsum := hs.inside hin
      have hlen : itsSize ≤ (s.message.body.drop s.current).length := by
        rw [List.length_drop]
        omega
      rcases InputStream.decodeString_returns encoding hlen with ⟨r, hr, _⟩
      cases hdecode.symm.trans hr
    · rw [List.drop_eq_nil_of_le (by omega)] at hdecode
      exact decodeString_halts encoding e hdecode hfuel

theorem finishes_headers : HeaderSteps (fun s t => SoundOf length s → SoundOf length t)
    (fun s e (_ : InputStream) => SoundOf length s → e ≠ Halt.outOfFuel) where
  composes := finishes_composes
  align := finishes_of InputStream.bitAlign_forward fun _ _ => nofun
  raw size := finishes_of (InputStream.readRaw_forward size) fun s _ => by
    rw [InputStream.readRaw_run]
    exact nofun
  raising := finishes_of InputStream.raise_forward fun _ _ => nofun
  assign _ _ := assignBits_finishes
  ignore _ := ignoreBits_finishes
  string itsSize encoding s hsize := by
    have hhalted := string_finishes encoding hsize
    have hforward := InputStream.readStringData_forward itsSize encoding s
    cases hrun : InputStream.readStringData itsSize encoding s with
    | ok value t =>
      rw [hrun] at hforward
      exact fun hs => ⟨hforward.sound hs.1, by rw [hforward.message, hs.2]⟩
    | error e t =>
      rw [hrun] at hhalted
      exact fun hs heq => hhalted hs.1 (congrArg some heq)
  bytes itsSize size s _ _ := by
    have hforward := InputStream.readBytes_forward itsSize size s
    rw [InputStream.readBytes_run] at hforward ⊢
    split at hforward
    · rw [if_pos ‹_›]
      exact fun hs => ⟨hforward.sound hs.1, by rw [hforward.message, hs.2]⟩
    · rw [if_neg ‹_›]
      exact fun _ => by decide

end Ending

def FinishesInTime {α : Type} (d : ℕ → Read α) : Prop :=
  ∃ bound : ℕ → ℕ, ∀ length fuel, bound length ≤ fuel → Finishes length (d fuel)

section InTime
variable {α β : Type} {d : ℕ → Read α} {e : ℕ → Read β}

theorem inTime_of {x : Read α} (h : ∀ length, Finishes length x) : FinishesInTime fun _ => x :=
  ⟨fun _ => 0, fun length _ _ => h length⟩

theorem FinishesInTime.terminates (h : FinishesInTime d) : TerminatesIn everyRun d := by
  rcases h with ⟨bound, hbound⟩
  refine ⟨bound, fun s hs fuel hfuel _ => ?_⟩
  have hfinishes := hbound s.message.body.length fuel hfuel s
  cases hrun : d fuel s with
  | ok a t => exact nofun
  | error e t =>
    rw [hrun] at hfinishes
    exact fun heq => hfinishes ⟨hs, rfl⟩ (Option.some.inj heq)

theorem terminatesIn_inTime (hd : Decoder d) (h : TerminatesIn everyRun d) : FinishesInTime d := by
  rcases h with ⟨bound, hbound⟩
  refine ⟨bound, fun length fuel hfuel => finishes_of (hd.forward fuel) fun s hs => hbound s hs.1 fuel ?_ trivial⟩
  rw [hs.2]
  exact hfuel

theorem FinishesInTime.lift (h : FinishesInTime d)
    (hlift : ∀ length fuel, Finishes length (d fuel) → Finishes length (e fuel)) : FinishesInTime e := by
  rcases h with ⟨bound, hbound⟩
  exact ⟨bound, fun length fuel hfuel => hlift length fuel (hbound length fuel hfuel)⟩

end InTime

section Types
variable (uninitialised : ℕ × ℕ)

theorem enumeration_finishes {length : ℕ} (base : IntegerType) (depl : Option (EnumerationDeployment base.size)) :
    Finishes length (InputStream.readEnumeration base depl) := by
  unfold InputStream.readEnumeration
  split
  · split <;> exact assignBits_finishes
  · exact assignBits_finishes

mutual

theorem DataType.inTime : ∀ type : DataType, type.bounded = true →
    FinishesInTime fun fuel => type.read DataType.initial uninitialised fuel
  | .bool, _ => inTime_of fun length => show Finishes length InputStream.readBool from assignBits_finishes
  | .integer _ _, _ => inTime_of fun _ => assignBits_finishes
  | .rangedInteger minimum maximum _, _ => inTime_of fun _ => respects_map finishes_composes _
      (InputStream.respects_readRangedInteger finishes_headers minimum maximum assignBits_finishes)
  | .float, _ => inTime_of fun length => show Finishes length InputStream.readFloat from
      respects_bind finishes_composes finishes_headers.align fun _ => finishes_headers.assign 4 id
  | .double, _ => inTime_of fun length => show Finishes length InputStream.readDouble from
      respects_bind finishes_composes finishes_headers.align fun _ => finishes_headers.assign 8 id
  | .version, _ => inTime_of fun _ => InputStream.respects_readVersion finishes_headers
  | .enumerationEmpty base, _ => inTime_of fun _ => enumeration_finishes base none
  | .enumeration base depl, _ => inTime_of fun _ => enumeration_finishes base depl
  | .string depl, _ => inTime_of fun _ => InputStream.respects_readString finishes_headers depl _
  | .byteBuffer depl, _ => inTime_of fun _ => InputStream.respects_readByteBuffer finishes_headers depl
  | .byteVector depl, _ => inTime_of fun _ => InputStream.respects_readByteVector finishes_headers depl
  | .structEmpty fields, h => (fields.inTimeFields h).lift fun _ _ hfields =>
      respects_map finishes_composes _ (InputStream.respects_readStructEmpty finishes_headers hfields)
  | .struct depl fields, h => (fields.inTimeFields h).lift fun _ _ hfields =>
      respects_map finishes_composes _ (InputStream.respects_readStruct finishes_headers depl hfields)
  | .variant depl alternatives, h => by
    rcases alternatives.inTimeAlternatives h with ⟨bound, hbound⟩
    exact ⟨bound, fun length fuel hfuel =>
      InputStream.respects_readVariant finishes_headers uninitialised depl (hbound length fuel hfuel)⟩
  | .vector depl element, h => by
    have h : element.bounded = true ∧ (arrayLengthWidth depl = 0 ∨ element.demands = true) := by
      simpa [DataType.bounded] using h
    have helement := element.decodes uninitialised
    refine terminatesIn_inTime (.vector depl helement)
      (InputStream.readVector_terminates helement (element.inTime h.1).terminates depl ?_)
    exact h.2.imp (fun hzero hwidth => by
      unfold IsWidth at hwidth
      change (depl.map (·.arrayLengthWidth)).getD 4 = 0 at hzero
      omega) element.not_quiet
  | .map depl key mapped, h => by
    have h : (key.bounded = true ∧ mapped.bounded = true) ∧ (key.demands = true ∨ mapped.demands = true) := by
      simpa [DataType.bounded] using h
    have hkey := key.decodes uninitialised
    have hmapped := mapped.decodes uninitialised
    refine terminatesIn_inTime (.map depl hkey hmapped) (InputStream.readMap_terminates hkey hmapped
      (key.inTime h.1.1).terminates (mapped.inTime h.1.2).terminates depl (Or.inl fun hquiet => ?_))
    exact h.2.elim (fun hdemands => key.not_quiet hdemands hquiet.1) fun hdemands =>
      mapped.not_quiet hdemands hquiet.2
  | .mapEmpty key mapped, h => by
    have h : (key.bounded = true ∧ mapped.bounded = true) ∧ (key.demands = true ∨ mapped.demands = true) := by
      simpa [DataType.bounded] using h
    have hkey := key.decodes uninitialised
    have hmapped := mapped.decodes uninitialised
    refine terminatesIn_inTime (.mapEmpty hkey hmapped) (InputStream.readMapEmpty_terminates hkey hmapped
      (key.inTime h.1.1).terminates (mapped.inTime h.1.2).terminates fun hquiet => ?_)
    exact h.2.elim (fun hdemands => key.not_quiet hdemands hquiet.1) fun hdemands =>
      mapped.not_quiet hdemands hquiet.2

theorem DataTypes.inTimeFields : ∀ types : DataTypes, types.allBounded = true →
    FinishesInTime fun fuel => types.readFields DataType.initial uninitialised fuel
  | .nil, _ => inTime_of fun _ => respects_pure finishes_composes _
  | .cons first rest, h => by
    have hboth := Bool.and_eq_true_iff.1 h
    rcases first.inTime hboth.1 with ⟨bound, hbound⟩
    rcases rest.inTimeFields hboth.2 with ⟨bound', hbound'⟩
    refine ⟨fun length => max (bound length) (bound' length), fun length fuel hfuel => ?_⟩
    have hfuels := max_le_iff.1 hfuel
    exact InputStream.respects_readFields finishes_headers (hbound length fuel hfuels.1)
      (hbound' length fuel hfuels.2)

theorem DataTypes.inTimeAlternatives : ∀ types : DataTypes, types.allBounded = true →
    ∃ bound : ℕ → ℕ, ∀ length fuel, bound length ≤ fuel →
      ∀ d ∈ types.readAlternatives DataType.initial uninitialised fuel, Finishes length d
  | .nil, _ => ⟨fun _ => 0, fun _ _ _ _ hd => absurd hd List.not_mem_nil⟩
  | .cons first rest, h => by
    have hboth := Bool.and_eq_true_iff.1 h
    rcases first.inTime hboth.1 with ⟨bound, hbound⟩
    rcases rest.inTimeAlternatives hboth.2 with ⟨bound', hbound'⟩
    refine ⟨fun length => max (bound length) (bound' length), fun length fuel hfuel d hd => ?_⟩
    have hfuels := max_le_iff.1 hfuel
    rcases List.mem_cons.1 hd with rfl | hd
    · exact respects_map finishes_composes _ (hbound length fuel hfuels.1)
    · rcases List.mem_map.1 hd with ⟨e, he, rfl⟩
      exact respects_map finishes_composes _ (hbound' length fuel hfuels.2 e he)

end

theorem bytewise_fields : FieldSteps takesBytes (fun s t => OnBytes s → OnBytes t)
    (fun s e _ => OnBytes s → e ≠ Halt.outOfBounds) where
  headers := bytewise_headers
  fuel _ := fun _ => by decide
  field _ _ _ _ _ h := assignBits_bytewise (of_decide_eq_true h)

theorem DataType.returns (type : DataType) (hbytes : type.everyField takesBytes = true)
    (hbounded : type.bounded = true) : ∃ bound : ℕ → ℕ, ∀ s fuel, OnBytes s →
      bound s.message.body.length ≤ fuel → ∃ value t,
        type.read DataType.initial uninitialised fuel s = .ok value t ∧ OnBytes t ∧ t.message = s.message := by
  rcases type.inTime uninitialised hbounded with ⟨bound, hbound⟩
  refine ⟨bound, fun s fuel hs hfuel => ?_⟩
  have hfinishes : Finishes s.message.body.length (type.read DataType.initial uninitialised fuel) :=
    hbound s.message.body.length fuel hfuel
  have hfinishes := hfinishes s
  have hforward := (type.decodes uninitialised).forward fuel s
  have hstays : Bytewise (type.read DataType.initial uninitialised fuel) := type.respects bytewise_fields hbytes
  have hstays := hstays s
  cases hrun : type.read DataType.initial uninitialised fuel s with
  | ok value t =>
    rw [hrun] at hforward hstays
    exact ⟨value, t, rfl, hstays hs, hforward.message⟩
  | error e t =>
    rw [hrun] at hfinishes hstays
    cases e with
    | outOfBounds => exact absurd rfl (hstays hs)
    | outOfFuel => exact absurd rfl (hfinishes ⟨hs.sound, rfl⟩)

theorem DataTypes.deserialize_returns : ∀ types : DataTypes, types.everyFields takesBytes = true →
    types.allBounded = true → ∃ bound : ℕ → ℕ, ∀ s fuel, OnBytes s → bound s.message.body.length ≤ fuel →
      ∀ formers, ∃ result t,
        (types.outArgs initialParts uninitialised fuel).deserialize formers s = .ok result t
  | .nil, _, _ => ⟨fun _ => 0, fun s _ _ _ _ => ⟨_, s, rfl⟩⟩
  | .cons first rest, hbytes, hbounded => by
    have hbytes := Bool.and_eq_true_iff.1 hbytes
    have hbounded := Bool.and_eq_true_iff.1 hbounded
    rcases first.returns uninitialised hbytes.1 hbounded.1 with ⟨bound, hbound⟩
    rcases rest.deserialize_returns hbytes.2 hbounded.2 with ⟨bound', hbound'⟩
    refine ⟨fun length => max (bound length) (bound' length), fun s fuel hs hfuel formers => ?_⟩
    rcases formers with ⟨former, formers⟩
    have hfuels := max_le_iff.1 hfuel
    rcases hbound s fuel hs hfuels.1 with ⟨value, t, hrun, ht, hmessage⟩
    rcases hbound' t fuel ht (hmessage ▸ hfuels.2) formers with ⟨result, u, hrest⟩
    change ∃ result t, (OutArgs.cons (fun _ => first.read DataType.initial uninitialised fuel)
      (rest.outArgs initialParts uninitialised fuel)).deserialize (former, formers) s = .ok result t
    rw [outArgs_run, hrun]
    dsimp only
    rw [hrest]
    split
    · exact ⟨_, t, rfl⟩
    · exact ⟨_, u, rfl⟩

/-- Any payload is decoded: the arguments are read or refused, whatever the bytes are. -/
theorem any_payload_is_decoded (types : DataTypes) (hbytes : types.everyFields takesBytes = true)
    (hbounded : types.allBounded = true) : ∃ bound : ℕ → ℕ, ∀ (message : VsomeipMessage) (isLittleEndian : Bool) (fuel : ℕ),
      bound message.payload.body.length ≤ fuel → ∀ formers, ∃ success values,
        readArguments isLittleEndian (types.outArgs initialParts uninitialised fuel) formers message =
          .ok (success, values) := by
  rcases types.deserialize_returns uninitialised hbytes hbounded with ⟨bound, hbound⟩
  refine ⟨bound, fun message isLittleEndian fuel hfuel formers => ?_⟩
  rcases hbound (InputStream.create message.payload isLittleEndian) fuel (create_onBytes _ _) hfuel formers with
    ⟨⟨success, values⟩, t, hrun⟩
  refine ⟨success, values, ?_⟩
  unfold readArguments
  rw [hrun]

end Types

theorem any_name_table_is_decoded : ∃ bound : ℕ → ℕ, ∀ (message : VsomeipMessage) (isLittleEndian : Bool) (fuel : ℕ),
    bound message.payload.body.length ≤ fuel → ∀ formers, ∃ success values,
      readArguments isLittleEndian ((DataTypes.cons nameTable .nil).outArgs initialParts (0, 0) fuel) formers message =
        .ok (success, values) :=
  any_payload_is_decoded (0, 0) (.cons nameTable .nil) (by decide) (by decide)

section Requests
variable {parts : (type : DataType) → type.Value → (part : DataType) → part.Value} {uninitialised : ℕ × ℕ}
  {fuel : ℕ} {method : RemoteMethod} {helpers : List Helper} {message : VsomeipMessage}

/-- The one answer to a request: what the stub function gives, or an error. -/
inductive ReplyTo (message : VsomeipMessage) : VsomeipMessage → Prop
  | response (payload : Message) : ReplyTo message { message.createResponseMessage with payload := payload }
  | error (returnCode : ReturnCode) : ReplyTo message (message.createErrorResponseMessage returnCode)

theorem malformed_answers (hrequest : message.isRequestType = true)
    (hserves : Serves (method.dispatcher parts uninitialised fuel) message.method helpers)
    (h : @Leaves parts uninitialised fuel method message) :
    findDispatcherAndHandle (method.answer parts uninitialised fuel message) true true message helpers =
      .ok ⟨[message.createErrorResponseMessage .malformedMessage], none⟩ := by
  rw [served hserves (leaves_unhandled hrequest h), hrequest]
  rfl

theorem response_answers (himplemented : method.isImplemented = true) (hrequest : message.isRequestType = true)
    (hserves : Serves (method.dispatcher parts uninitialised fuel) message.method helpers)
    {arguments : method.inTypes.Values} {reply : Handed}
    (hread : method.readsFrom parts uninitialised fuel message = .ok (true, arguments))
    (hreply : writeArguments method.isLittleEndian
      (method.outTypes.arguments (method.stubFunctor message.client arguments)) message.createResponseMessage =
        .ok (some reply)) :
    findDispatcherAndHandle (method.answer parts uninitialised fuel message) true true message helpers =
      .ok ⟨[reply.message], none⟩ := by
  have hresponse : reply.message.messageType = .response := by
    rw [writeArguments_header hreply]
    rfl
  rw [served hserves (dispatcher_replies himplemented hrequest hread hreply), response_sent hresponse]
  rfl

/-- A request is answered by one message, whatever bytes it brings, if writing the results does not
    leave a string that is to be transcoded. -/
theorem any_request_is_answered (method : RemoteMethod) (uninitialised : ℕ × ℕ)
    (hbytes : method.inTypes.everyFields takesBytes = true) (hbounded : method.inTypes.allBounded = true)
    (hwritten : ∀ message client arguments, ∃ written, writeArguments method.isLittleEndian
      (method.outTypes.arguments (method.stubFunctor client arguments)) message = .ok written) :
    ∃ bound : ℕ → ℕ, ∀ (message : VsomeipMessage) (helpers : List Helper) (fuel : ℕ),
      bound message.payload.body.length ≤ fuel → message.isRequestType = true →
      Unknown message.method helpers ∨
        Serves (method.dispatcher initialParts uninitialised fuel) message.method helpers →
      ∃ reply, ReplyTo message reply ∧
        findDispatcherAndHandle (method.answer initialParts uninitialised fuel message) true true message helpers =
          .ok ⟨[reply], none⟩ := by
  rcases DataTypes.deserialize_returns uninitialised method.inTypes hbytes hbounded with ⟨bound, hbound⟩
  refine ⟨bound, fun message helpers fuel hfuel hrequest h => ?_⟩
  rcases h with hunknown | hserves
  · exact ⟨_, .error .unknownMethod, unknown_answered hunknown⟩
  rcases hbound (InputStream.create message.payload method.isLittleEndian) fuel (create_onBytes _ _) hfuel
    method.inTypes.initials with ⟨⟨success, arguments⟩, t, hrun⟩
  have hread : method.readsFrom initialParts uninitialised fuel message = .ok (success, arguments) := by
    unfold RemoteMethod.readsFrom readArguments
    rw [hrun]
  have hmalformed := fun hleaves : @Leaves initialParts uninitialised fuel method message =>
    (⟨_, .error .malformedMessage, malformed_answers hrequest hserves hleaves⟩ :
      ∃ reply, ReplyTo message reply ∧ findDispatcherAndHandle
        (method.answer initialParts uninitialised fuel message) true true message helpers = .ok ⟨[reply], none⟩)
  cases himplemented : method.isImplemented with
  | false => exact hmalformed (.unimplemented himplemented)
  | true =>
    cases success with
    | false => exact hmalformed (.unread arguments hread)
    | true =>
      rcases hwritten message.createResponseMessage message.client arguments with ⟨written, hwritten⟩
      cases written with
      | none => exact hmalformed (.unwritten arguments hread hwritten)
      | some reply =>
        refine ⟨reply.message, ?_, response_answers himplemented hrequest hserves hread hwritten⟩
        rw [writeArguments_header hwritten]
        exact .response _

end Requests

theorem sum_written (message : VsomeipMessage) (client : ClientId) (arguments : sum.inTypes.Values) :
    ∃ written, writeArguments false (sum.outTypes.arguments (sum.stubFunctor client arguments)) message =
      .ok written :=
  ⟨_, rfl⟩

theorem any_sum_is_answered : ∃ bound : ℕ → ℕ, ∀ (message : VsomeipMessage) (helpers : List Helper) (fuel : ℕ),
    bound message.payload.body.length ≤ fuel → message.isRequestType = true →
    Unknown message.method helpers ∨ Serves (sum.dispatcher initialParts (0, 0) fuel) message.method helpers →
    ∃ reply, ReplyTo message reply ∧
      findDispatcherAndHandle (sum.answer initialParts (0, 0) fuel message) true true message helpers =
        .ok ⟨[reply], none⟩ :=
  any_request_is_answered sum (0, 0) (by decide) (by decide) sum_written

end SomeIPRuntime.TypedValues
