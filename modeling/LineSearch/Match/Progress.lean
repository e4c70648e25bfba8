namespace LineSearch

/-!
# Progress through a line

Matching moves through the characters of one line. How far it has come, and what
its groups have captured on the way, is one value, passed on and never changed
in place: a way that is given up leaves no trace in the others.
-/

/-- The characters of one line. -/
abbrev Line := Array Char

namespace Line

/-- The characters of a text, taken as one line. -/
def ofText (text : String) : Line :=
  text.toList.toArray

end Line

/-- A stretch of a line: from one offset up to, and not including, another. -/
structure Span where
  start : Nat
  stop : Nat
  deriving Repr, DecidableEq

namespace Span

/-- How many characters a stretch holds. -/
def length (span : Span) : Nat :=
  span.stop - span.start

/-- The characters of a stretch of this line. -/
def of (span : Span) (chars : Line) : Array Char :=
  chars.extract span.start span.stop

/-- The text of a stretch of this line. -/
def text (span : Span) (chars : Line) : String :=
  String.ofList (span.of chars).toList

end Span

/-- What each group holds, by index; slot 0 belongs to no group of a compiled pattern. -/
abbrev Captures := Array (Option Span)

namespace Captures

/-- Slots for this many groups, none of which holds anything. -/
def unset (groupCount : Nat) : Captures :=
  Array.replicate (groupCount + 1) none

/-- The stretch that a group holds, if there is such a slot and it is set. -/
def span? (captures : Captures) (index : Nat) : Option Span :=
  captures[index]?.join

/-- Enough slots for this index, the new ones unset. -/
def grow (captures : Captures) (index : Nat) : Captures :=
  captures.rightpad (index + 1) none

/-- Let a group hold a stretch, with new slots up to its index where they are missing. -/
def record (captures : Captures) (index : Nat) (span : Span) : Captures :=
  (captures.grow index).setIfInBounds index (some span)

@[simp] theorem size_unset (groupCount : Nat) : (unset groupCount).size = groupCount + 1 := by
  simp [unset]

@[simp] theorem size_grow
    (captures : Captures)
    (index : Nat) :
    (captures.grow index).size = max captures.size (index + 1) := by
  simp [grow]
  omega

@[simp] theorem size_record
    (captures : Captures)
    (index : Nat)
    (span : Span) :
    (captures.record index span).size = max captures.size (index + 1) := by
  simp [record]

end Captures

/-- How far matching has come in a line, with what has been captured so far. -/
structure Progress where
  offset : Nat
  captures : Captures
  deriving Repr, DecidableEq

end LineSearch
