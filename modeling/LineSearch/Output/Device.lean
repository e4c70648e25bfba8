namespace LineSearch.Output

/-!
# Devices that take bytes

A device has room for all bytes, or for so many. A write that does not fit is cut
where the room ends and refused, so a device never holds anything but a beginning
of what it was given.
-/

/-- A state after an attempt, with the reason if the attempt failed. -/
structure Attempt (α : Type) where
  state : α
  failure? : Option String

namespace Attempt

/-- An attempt that did not fail. -/
def done (state : α) : Attempt α :=
  ⟨state, none⟩

/-- Go on from an attempt, unless it failed. -/
def andThen
    (attempt : Attempt α)
    (next : α → Attempt α) :
    Attempt α :=
  match attempt.failure? with
  | some _ => attempt
  | none => next attempt.state

/-- Carry an attempt on a part of a state over to the whole. -/
def map (into : α → β) (attempt : Attempt α) : Attempt β :=
  ⟨into attempt.state, attempt.failure?⟩

end Attempt

/-- Something that takes bytes. -/
structure Device where
  /-- What it has taken so far. -/
  taken : Array UInt8
  /-- How many more bytes it takes, if there is a limit. -/
  room? : Option Nat
  /-- Why it refuses a byte for which it has no room. -/
  refusal : String
  /-- Why it refuses to be flushed, if it does. -/
  flushRefusal? : Option String
  deriving Repr

namespace Device

/-- A device that takes everything. -/
def unlimited : Device :=
  { taken := #[], room? := none, refusal := "", flushRefusal? := none }

/-- A device that takes nothing, for this reason. -/
def full (reason : String) : Device :=
  { taken := #[], room? := some 0, refusal := reason, flushRefusal? := none }

/-- Give bytes to a device: it takes those for which it has room, and refuses the others. -/
def write (device : Device) (bytes : List UInt8) : Attempt Device :=
  match device.room? with
  | none => .done { device with taken := device.taken ++ bytes }
  | some room =>
      {
        state := {
          device with
          taken := device.taken ++ bytes.take room
          room? := some (room - bytes.length)
        }
        failure? := if bytes.length ≤ room then none else some device.refusal
      }

/-- Ask a device to pass on all that it has taken. -/
def flush (device : Device) : Attempt Device :=
  ⟨device, device.flushRefusal?⟩

end Device

end LineSearch.Output
