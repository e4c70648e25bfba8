import LineSearch.Text.Quoted

namespace LineSearch

/-!
# Why a pattern text is refused

Positions are offsets into the pattern text, counted in characters.
-/

/-- The reasons for which a pattern text denotes no pattern. -/
inductive PatternError where
  /-- The text ends after a bar. -/
  | incompleteAlternation
  /-- A branch of an alternation is missing at this position. -/
  | emptyAlternative (position : Nat)
  /-- One character was demanded and another one, or none, was there. -/
  | expected (char : Char) (found? : Option Char) (position : Nat)
  /-- The set opened at this position is never closed. -/
  | unclosedSet (position : Nat)
  /-- The text ends after a backslash. -/
  | incompleteEscape
  /-- A whole pattern was read and this text is left. -/
  | trailingCharacters (position : Nat) (rest : String)
  deriving Repr, DecidableEq

namespace PatternError

/-- The text shown to whoever wrote the pattern. -/
def message : PatternError → String
  | .incompleteAlternation =>
      "pattern ends with incomplete alternation"
  | .emptyAlternative position =>
      s!"empty alternative at position {position}"
  | .expected char (some found) position =>
      s!"expected {Quoted.char char} but found {Quoted.char found} at position {position}"
  | .expected char none position =>
      s!"expected {Quoted.char char} but reached end of pattern at position {position}"
  | .unclosedSet position =>
      s!"unclosed character set '[' opened at position {position}"
  | .incompleteEscape =>
      "incomplete escape sequence at end of pattern"
  | .trailingCharacters position rest =>
      s!"unexpected characters at position {position}: {Quoted.text rest}"

end PatternError

end LineSearch
