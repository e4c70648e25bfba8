import LineSearch.Output.Device

namespace LineSearch.Output

/-!
# Channels to a device

Bytes reach a device through a channel, piece by piece. A direct channel hands
every piece on. A buffered one gathers pieces in a block and hands the block on
when the next piece does not fit; what is handed on goes to the device up to its
last line end, while an unfinished line is held back as long as it is short.

A refusal of the device is therefore noticed late, but never lost: it comes with
a later piece or, at the latest, with the flush.
-/

/-- How many bytes a channel gathers in a block. -/
def blockSize : Nat := 8192

/-- How many bytes of an unfinished line are held back. -/
def lineSize : Nat := 1024

/-- A way to a device. -/
structure Channel where
  device : Device
  /-- Pieces are gathered on the way. -/
  buffered : Bool
  /-- The block that is being gathered. -/
  block : Array UInt8
  /-- The unfinished line that is held back before the device. -/
  held : Array UInt8
  deriving Repr

namespace Channel

/-- A channel that hands every piece on. -/
def direct (device : Device) : Channel :=
  ⟨device, false, #[], #[]⟩

/-- A channel that gathers pieces. -/
def gathering (device : Device) : Channel :=
  ⟨device, true, #[], #[]⟩

/-- Give the device what was held back, and these bytes behind it. -/
def release (channel : Channel) (bytes : List UInt8) : Attempt Channel :=
  (channel.device.write (channel.held.toList ++ bytes)).map fun device =>
    { channel with device := device, held := #[] }

/-- Hold the end of an unfinished line back if it is short, with what is held already. -/
def hold (channel : Channel) (bytes : List UInt8) : Attempt Channel :=
  if channel.held.size + bytes.length ≤ lineSize ∧ bytes.length < lineSize then
    .done { channel with held := channel.held ++ bytes }
  else if bytes.length < lineSize then
    (channel.release []).andThen fun channel =>
      .done { channel with held := bytes.toArray }
  else
    channel.release bytes

/-- The bytes up to and with the last line end, and those behind it. -/
def cutAtLineEnd (bytes : List UInt8) : List UInt8 × List UInt8 :=
  let unfinished := (bytes.reverse.takeWhile (· != 10)).length
  bytes.splitAt (bytes.length - unfinished)

/-- Hand bytes on: finished lines to the device, the rest to be held back. -/
def handOn (channel : Channel) (bytes : List UInt8) : Attempt Channel :=
  match cutAtLineEnd bytes with
  | ([], unfinished) => channel.hold unfinished
  | (finished, unfinished) =>
      (channel.release finished).andThen (·.hold unfinished)

/-- Hand the gathered block on. -/
def spill (channel : Channel) : Attempt Channel :=
  (channel.handOn channel.block.toList).map fun channel =>
    { channel with block := #[] }

/-- Gather a piece, after the block has been handed on if the piece does not fit. -/
def gather (channel : Channel) (piece : List UInt8) : Attempt Channel :=
  let ready :=
    if channel.block.size + piece.length ≤ blockSize then
      .done channel
    else
      channel.spill
  ready.andThen fun channel =>
    if piece.length < blockSize then
      .done { channel with block := channel.block ++ piece }
    else
      channel.handOn piece

/-- Give a piece to a channel. -/
def write (channel : Channel) (piece : List UInt8) : Attempt Channel :=
  if channel.buffered then
    channel.gather piece
  else
    (channel.device.write piece).map fun device =>
      { channel with device := device }

/-- Give pieces to a channel, up to the first one refused. -/
def writeAll (channel : Channel) : List (List UInt8) → Attempt Channel
  | [] => .done channel
  | piece :: rest => (channel.write piece).andThen (·.writeAll rest)

/-- Hand on all that is gathered or held back, and flush the device. -/
def flush (channel : Channel) : Attempt Channel :=
  (channel.spill.andThen (·.release [])).andThen fun channel =>
    channel.device.flush.map fun device => { channel with device := device }

end Channel

end LineSearch.Output
