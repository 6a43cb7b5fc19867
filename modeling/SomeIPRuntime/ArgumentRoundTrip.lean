import SomeIPRuntime.Serialization
import SomeIPRuntime.TypedRoundTrip

set_option autoImplicit false

namespace SomeIPRuntime.TypedValues
open Bits ProgramRuns Deployment
open InputStream (Read)
open OutputStream (Clean Write WriteOp Writer Wrote)
open RoundTrip Serialization

def DataTypes.arguments : (types : DataTypes) → types.Values → List (Write Unit)
  | .nil, _ => []
  | .cons first rest, (value, values) => first.write value :: rest.arguments values

section Reading
variable (parts : (type : DataType) → type.Value → (part : DataType) → part.Value)
  (uninitialised : ℕ × ℕ) (fuel : ℕ)

/-- The arguments of `deserialize`. `parts` says what the parts of an argument hold that has a
    certain value. -/
def DataTypes.outArgs : (types : DataTypes) → OutArgs types.Values
  | .nil => .nil
  | .cons first rest => .cons (fun value => first.read (parts first value) uninitialised fuel) rest.outArgs

end Reading

theorem serialize_writer {arguments : List (Write Unit)} (harguments : ∀ a ∈ arguments, Writer a) :
    Writer (OutputStream.serialize arguments) := by
  induction arguments with
  | nil => exact OutputStream.pure_writer true
  | cons argument rest ih =>
    refine respects_bind OutputStream.writes_composes (harguments argument List.mem_cons_self) fun _ => ?_
    refine respects_bind OutputStream.writes_composes OutputStream.hasError_writer fun _ => ?_
    exact respects_ite (OutputStream.pure_writer false)
      (ih fun a ha => harguments a (List.mem_cons_of_mem argument ha))

theorem DataTypes.arguments_write : ∀ (types : DataTypes) (values : types.Values),
    ∀ a ∈ types.arguments values, Writer a
  | .nil, _, _, ha => absurd ha List.not_mem_nil
  | .cons first rest, (value, values), a, ha => by
    rcases List.mem_cons.1 ha with rfl | ha
    · exact (first.writes value).writer
    · exact rest.arguments_write values a ha

/-- The next argument is written only if the one before it has left no error. -/
theorem serialize_cons {argument : Write Unit} {rest : List (Write Unit)} {o t : OutputStream}
    (h : OutputStream.serialize (argument :: rest) o = .ok true t) :
    ∃ m, argument o = .ok ⟨⟩ m ∧ m.errorOccurred = false ∧ OutputStream.serialize rest m = .ok true t := by
  rcases bind_eq_ok.1 h with ⟨_, m, hm, hrest⟩
  rw [bind_ok (OutputStream.hasError_run m)] at hrest
  cases herror : m.errorOccurred with
  | true =>
    rw [herror] at hrest
    cases hrest
  | false =>
    rw [herror] at hrest
    exact ⟨m, hm, herror, hrest⟩

theorem deserialize_cons {α β : Type} {argument : α → Read α} {rest : OutArgs β} {former value : α}
    {formers values : β} {s u v : InputStream} (hargument : argument former s = .ok value u)
    (hquiet : u.errorOccurred = false) (hrest : rest.deserialize formers u = .ok (true, values) v) :
    (OutArgs.cons argument rest).deserialize (former, formers) s = .ok (true, value, values) v := by
  refine (bind_ok hargument).trans ?_
  change (if u.errorOccurred = true then _ else _ : Read (Bool × α × β)) u = _
  rw [if_neg (hquiet ▸ Bool.false_ne_true)]
  exact bind_ok hrest

section Arguments
variable {parts : (type : DataType) → type.Value → (part : DataType) → part.Value}
  {uninitialised : ℕ × ℕ} {fuel : ℕ} {le : Bool}

/-- The reader of the arguments comes to each of them where it has been written. -/
theorem DataTypes.restoreArguments : ∀ (types : DataTypes) (values formers : types.Values) (n : ℕ),
    types.SendableFields le values n → types.longestField values ≤ fuel → ∀ o, Clean o →
    o.isLittleEndian = le → o.bits.length = n → ∀ t s,
    OutputStream.serialize (types.arguments values) o = .ok true t → Receives s o t →
    ∃ u, (types.outArgs parts uninitialised fuel).deserialize formers s = .ok (true, values) u ∧
      Arrived s u t
  | .nil, _, _, _, _, _, o, _, _, _, t, s, hrun, hs => by
    cases hrun
    exact ⟨s, rfl, hs.faces, rfl, hs.errorOccurred⟩
  | .cons first rest, (value, values), (former, formers), n, h, hfuel, o, ho, hle, hn, t, s, hrun, hs => by
    have hlongest := max_le_iff.1 hfuel
    rcases serialize_cons hrun with ⟨m, hm, hquiet, hrest⟩
    rcases (first.writes value).writer.ok hm ho with ⟨_, _, hom⟩
    rcases (serialize_writer (rest.arguments_write values)).ok hrest hom.clean with ⟨_, _, hmt⟩
    have hshort := hs.short hmt.clean
    have hmshort := hmt.length.trans_lt hshort
    have hbits := hom.bits hmshort
    have hposition := first.write_ends value o _ m ho hm hquiet hmshort
    rw [hn] at hposition
    rcases first.restores value n h.1 hlongest.1 o ho hle hn m s hm hquiet (hs.first hbits (hmt.bits hshort))
      with ⟨u, hread, hu⟩
    rcases rest.restoreArguments values formers _ h.2 hlongest.2 m hom.clean (hom.isLittleEndian.trans hle)
      hposition t u hrest (hs.rest hbits (hmt.bits hshort) hu) with ⟨v, hread', hv⟩
    exact ⟨v, deserialize_cons hread hu.errorOccurred hread', hu.trans hv⟩

/-- A new reader of the payload stands in front of the first argument. -/
theorem flushed_receives {t : OutputStream} (ht : Clean t)
    (hshort : (OutputStream.aligned t).payload.length < 2 ^ 32) (le : Bool) :
    Receives (InputStream.create ⟨(OutputStream.aligned t).payload, hshort⟩ le) (OutputStream.create le) t := by
  refine ⟨create_faces _ le, rfl, ?_⟩
  have hcarries := flushed_carries ht hshort
  unfold Carries at hcarries
  exact hcarries

/-- What a path that writes arguments has handed to the connection. -/
theorem writeArguments_handed {arguments : List (Write Unit)} {message : VsomeipMessage} {handed : Handed}
    (h : writeArguments le arguments message = .ok (some handed)) (hne : arguments.isEmpty = false) :
    ∃ t, OutputStream.serialize arguments (OutputStream.create le) = .ok true t ∧ handed.written = some t ∧
      ∀ hshort : (OutputStream.aligned t).payload.length < 2 ^ 32,
        handed.message = { message with payload := ⟨(OutputStream.aligned t).payload, hshort⟩ } := by
  unfold writeArguments at h
  rw [hne, if_neg Bool.false_ne_true] at h
  cases hrun : OutputStream.serialize arguments (OutputStream.create le) with
  | error halt t =>
    rw [hrun] at h
    cases h
  | ok success t =>
    rw [hrun] at h
    cases success with
    | false => cases h
    | true =>
      change some <$> flushInto message t = _ at h
      cases hflush : flushInto message t with
      | error halt =>
        rw [hflush] at h
        cases h
      | ok sent =>
        rw [hflush] at h
        cases h
        refine ⟨t, rfl, flushInto_written hflush, fun hshort => ?_⟩
        rcases flush_run hshort with ⟨u, hu⟩
        unfold flushInto at hflush
        rw [hu] at hflush
        cases hflush
        rfl

theorem writeArguments_header {arguments : List (Write Unit)} {message : VsomeipMessage} {handed : Handed}
    (h : writeArguments le arguments message = .ok (some handed)) :
    handed.message = { message with payload := handed.message.payload } := by
  unfold writeArguments at h
  split at h
  · cases h
    rfl
  · split at h
    · rename_i t _
      unfold flushInto at h
      cases hflush : OutputStream.flush t with
      | error halt u =>
        rw [hflush] at h
        cases h
      | ok payload u =>
        rw [hflush] at h
        cases h
        rfl
    · cases h
    · cases h

/-- The payload has not become longer than a message can be. -/
def Short (handed : Handed) : Prop :=
  ∀ t ∈ handed.written, (OutputStream.aligned t).payload.length < 2 ^ 32

theorem written_shortly {written : Except Halt (Option Handed)}
    (h : (match written with
      | .ok (some handed) => handed.written.all fun t => (OutputStream.aligned t).payload.length < 2 ^ 32
      | _ => false) = true) : ∃ handed, written = .ok (some handed) ∧ Short handed := by
  split at h
  · rename_i handed
    refine ⟨handed, rfl, fun t ht => ?_⟩
    rw [Option.mem_def.1 ht] at h
    exact of_decide_eq_true h
  · cases h

theorem written_short {arguments : List (OutputStream.Write Unit)}
    (hne : arguments.isEmpty = false)
    (h : (match OutputStream.serialize arguments (OutputStream.create le) with
      | .ok _ t => (OutputStream.aligned t).payload.length < 2 ^ 32
      | .error _ _ => false) = true) (message : VsomeipMessage) (handed : Handed)
    (hwritten : writeArguments le arguments message = .ok (some handed)) : Short handed := by
  rcases writeArguments_handed hwritten hne with ⟨t, hrun, hstream, -⟩
  rw [hrun] at h
  intro u hu
  cases hstream.symm.trans hu
  exact of_decide_eq_true h

/-- Arguments that have been written to a message are read from it, one and all. -/
theorem DataTypes.arguments_arrive (types : DataTypes) (values formers : types.Values)
    (hsendable : types.SendableFields le values 0) (hfuel : types.longestField values ≤ fuel)
    {message received : VsomeipMessage} {handed : Handed}
    (hwritten : writeArguments le (types.arguments values) message = .ok (some handed)) (hshort : Short handed)
    (hreceived : received.payload = handed.message.payload) :
    readArguments le (types.outArgs parts uninitialised fuel) formers received = .ok (true, values) := by
  cases types with
  | nil => rfl
  | cons first rest =>
    rcases writeArguments_handed hwritten rfl with ⟨t, hrun, hstream, hmessage⟩
    have hfits := hshort t hstream
    have hclean := OutputStream.create_clean le
    rcases (serialize_writer (DataTypes.arguments_write _ values)).ok hrun hclean with ⟨_, _, hwrote⟩
    rcases DataTypes.restoreArguments _ values formers 0 hsendable hfuel _ hclean rfl rfl t _ hrun
      (flushed_receives hwrote.clean hfits le) with ⟨u, hread, _⟩
    have hpayload : received.payload = ⟨(OutputStream.aligned t).payload, hfits⟩ := by
      rw [hreceived, hmessage hfits]
    unfold readArguments
    rw [hpayload, hread]

end Arguments

end SomeIPRuntime.TypedValues
