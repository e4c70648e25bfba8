namespace LineSearch.Utf8

/-!
# Bytes as text

A stream of bytes is decoded one byte at a time. What is not well formed is
replaced: each longest beginning of a character that is not continued as it
should be becomes one replacement character, and so does each byte that begins
none. Nothing is lost otherwise, and decoding never fails.
-/

/-- The character that stands for what is not well formed. -/
def replacement : Char := '\uFFFD'

/-- Where the decoder stands between two bytes. -/
inductive State where
  /-- Between two characters. -/
  | start
  /--
  Inside a character: its bits so far, how many more bytes it has after the next
  one, and the bounds of the next one.
  -/
  | inside (bits more low high : Nat)
  deriving Repr, DecidableEq

/-- Take a byte between two characters. -/
def lead (byte : Nat) : List Char × State :=
  if byte < 0x80 then ([Char.ofNat byte], .start)
  else if byte < 0xC2 then ([replacement], .start)
  else if byte < 0xE0 then ([], .inside (byte - 0xC0) 0 0x80 0xBF)
  else if byte = 0xE0 then ([], .inside 0 1 0xA0 0xBF)
  else if byte = 0xED then ([], .inside 0xD 1 0x80 0x9F)
  else if byte < 0xF0 then ([], .inside (byte - 0xE0) 1 0x80 0xBF)
  else if byte = 0xF0 then ([], .inside 0 2 0x90 0xBF)
  else if byte < 0xF4 then ([], .inside (byte - 0xF0) 2 0x80 0xBF)
  else if byte = 0xF4 then ([], .inside 4 2 0x80 0x8F)
  else ([replacement], .start)

/-- Take one byte: the characters that are now certain, and the next state. -/
def feed (state : State) (byte : UInt8) : List Char × State :=
  match state with
  | .start => lead byte.toNat
  | .inside bits more low high =>
      if low ≤ byte.toNat ∧ byte.toNat ≤ high then
        let all := bits * 0x40 + (byte.toNat - 0x80)
        match more with
        | 0 => ([Char.ofNat all], .start)
        | later + 1 => ([], .inside all later 0x80 0xBF)
      else
        let (chars, next) := lead byte.toNat
        (replacement :: chars, next)

/-- The characters still owed when the stream ends in this state. -/
def finish : State → List Char
  | .start => []
  | .inside .. => [replacement]

/-- A decoder under way: the characters so far, and where it stands. -/
structure Decoder where
  chars : Array Char
  state : State
  deriving Repr

namespace Decoder

/-- A decoder that has seen nothing. -/
def fresh : Decoder :=
  ⟨#[], .start⟩

/-- Take one byte. -/
def take (decoder : Decoder) (byte : UInt8) : Decoder :=
  let (chars, next) := feed decoder.state byte
  ⟨decoder.chars ++ chars, next⟩

end Decoder

/-- The text of a stream of bytes. -/
def decode (bytes : List UInt8) : String :=
  let last := bytes.foldl Decoder.take .fresh
  String.ofList (last.chars ++ finish last.state).toList

/-- The bytes of a text. -/
def encode (text : String) : List UInt8 :=
  text.toList.flatMap String.utf8EncodeChar

theorem encode_append
    (left right : String) :
    encode (left ++ right) = encode left ++ encode right := by
  simp [encode]

end LineSearch.Utf8
