import SomeIPRuntime.InputValues
import SomeIPRuntime.OutputValues
import SomeIPRuntime.VsomeipMessage

set_option autoImplicit false

namespace SomeIPRuntime.Serialization
open InputStream (Read)
open OutputStream (Write)
open ProgramRuns

/-- A message that a path hands to the connection, and the stream that has written its payload, as
    it was when all arguments were written. -/
structure Handed where
  message : VsomeipMessage
  written : Option OutputStream

def Handed.Intact (handed : Handed) : Prop :=
  ∀ o ∈ handed.written, o.errorOccurred = false

def flushInto (message : VsomeipMessage) (o : OutputStream) : Except Halt Handed :=
  match OutputStream.flush o with
  | .ok payload _ => .ok ⟨{ message with payload := payload }, some o⟩
  | .error halt _ => .error halt

/-- The common body of the paths that write arguments: `none` where serialization failed. -/
def writeArguments (isLittleEndian : Bool) (arguments : List (Write Unit)) (message : VsomeipMessage) :
    Except Halt (Option Handed) :=
  if arguments.isEmpty then
    .ok (some ⟨message, none⟩)
  else
    match OutputStream.serialize arguments (OutputStream.create isLittleEndian) with
    | .ok true o => some <$> flushInto message o
    | .ok false _ => .ok none
    | .error halt _ => .error halt

inductive OutArgs : Type → Type 1
  | nil : OutArgs Unit
  | cons {α β : Type} (argument : α → Read α) (rest : OutArgs β) : OutArgs (α × β)

def OutArgs.isEmpty {α : Type} : OutArgs α → Bool
  | .nil => true
  | .cons _ _ => false

/-- `SerializableArguments::deserialize` -/
def OutArgs.deserialize {α : Type} : OutArgs α → α → Read (Bool × α)
  | .nil, () => pure (true, ())
  | .cons argument rest, (value, values) => do
    let value ← argument value
    if ← InputStream.hasError then
      pure (false, value, values)
    else
      let (success, values) ← rest.deserialize values
      pure (success, value, values)

def readArguments {α : Type} (isLittleEndian : Bool) (arguments : OutArgs α) (values : α)
    (message : VsomeipMessage) : Except Halt (Bool × α) :=
  match arguments.deserialize values (InputStream.create message.payload isLittleEndian) with
  | .ok result _ => .ok result
  | .error halt _ => .error halt

theorem serialize_intact {arguments : List (Write Unit)} {o t : OutputStream}
    (hne : arguments ≠ []) (hrun : OutputStream.serialize arguments o = .ok true t) :
    t.errorOccurred = false := by
  induction arguments generalizing o with
  | nil => exact absurd rfl hne
  | cons argument rest ih =>
    unfold OutputStream.serialize at hrun
    obtain ⟨_, m, -, hrest⟩ := bind_eq_ok.1 hrun
    have hasError_run : OutputStream.hasError m = .ok m.errorOccurred m := rfl
    rw [bind_ok hasError_run] at hrest
    cases herror : m.errorOccurred with
    | true =>
      rw [herror] at hrest
      cases hrest
    | false =>
      rw [herror] at hrest
      cases rest with
      | nil =>
        cases hrest
        exact herror
      | cons next rest => exact ih (List.cons_ne_nil _ _) hrest

theorem flushInto_ok (message : VsomeipMessage) (o : OutputStream) :
    ∃ handed, flushInto message o = .ok handed :=
  ⟨_, rfl⟩

theorem flushInto_written {message : VsomeipMessage} {o : OutputStream} {handed : Handed}
    (h : flushInto message o = .ok handed) : handed.written = some o := by
  unfold flushInto at h
  split at h
  · cases h
    rfl
  · cases h

theorem writeArguments_intact {isLittleEndian : Bool} {arguments : List (Write Unit)}
    {message : VsomeipMessage} {handed : Handed}
    (h : writeArguments isLittleEndian arguments message = .ok (some handed)) : handed.Intact := by
  unfold writeArguments at h
  split at h
  · cases h
    exact fun o ho => (by cases ho)
  · rename_i hne
    split at h
    · rename_i o hrun
      cases hflush : flushInto message o with
      | error halt =>
        rw [hflush] at h
        cases h
      | ok sent =>
        rw [hflush] at h
        cases h
        intro p hp
        rw [flushInto_written hflush] at hp
        cases hp
        exact serialize_intact (fun hnil => hne (by rw [hnil]; rfl)) hrun
    · cases h
    · cases h

end SomeIPRuntime.Serialization
