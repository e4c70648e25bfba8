import LineSearch.Match.Possibilities

namespace LineSearch

/-!
# Matching a line

A pattern matches a line at the first offset, from the left, at which its root
can be matched at all, and there in the way that is preferred. A pattern that is
anchored at its start is tried at offset 0 only.
-/

/-- What matching reports about one line. -/
structure Outcome where
  matched : Bool
  /-- The offset at which the match begins. -/
  start : Nat
  /-- The offset behind the last character of the match. -/
  stop : Nat
  /-- The text each slot holds, the empty text where it is unset. -/
  captures : List String
  deriving Repr, DecidableEq

namespace Outcome

/-- The outcome for a line that does not match. -/
def unmatched : Outcome :=
  { matched := false, start := 0, stop := 0, captures := [] }

/-- The text that a group holds, if the line matched and there is such a slot. -/
def group? (outcome : Outcome) (index : Nat) : Option String :=
  outcome.captures[index]?

end Outcome

/-- A match found in a line: where it begins, and how far it has come at its end. -/
structure Found where
  start : Nat
  final : Progress
  deriving Repr, DecidableEq

namespace Pattern

/-- The last offset at which the pattern is tried. -/
def lastStart (pattern : Pattern) (chars : Line) : Nat :=
  if pattern.anchoredStart then 0 else chars.size

/-- The preferred way to match the pattern from this offset on. -/
def matchAt? (pattern : Pattern) (chars : Line) (start : Nat) : Option Progress :=
  (pattern.root.orderedPossibilities chars
    ⟨start, Captures.unset pattern.groupCount⟩).head?

/-- The preferred way at the first offset that admits a match. -/
def find? (pattern : Pattern) (chars : Line) : Option Found :=
  (List.range (pattern.lastStart chars + 1)).findSome? fun start =>
    (pattern.matchAt? chars start).map fun final => ⟨start, final⟩

/-- The text each slot holds at the end of a match. -/
def capturedTexts (chars : Line) (captures : Captures) : List String :=
  captures.toList.map fun
    | some span => span.text chars
    | none => ""

/-- Match the pattern against one line, given without its line ending. -/
def matchLine (pattern : Pattern) (text : String) : Outcome :=
  let chars := Line.ofText text
  match pattern.find? chars with
  | some ⟨start, final⟩ =>
      {
        matched := true
        start := start
        stop := final.offset
        captures := capturedTexts chars final.captures
      }
  | none => .unmatched

/-- Does the pattern match somewhere in the line? -/
def isMatch (pattern : Pattern) (text : String) : Bool :=
  (pattern.find? (Line.ofText text)).isSome

end Pattern

end LineSearch
