namespace LineSearch

/-!
# Patterns

A pattern is a tree of nodes together with the number of its capturing groups.
Trees are plain data: any tree can be matched, whether or not some pattern text
denotes it. The canonical empty sub-pattern is a concatenation of no items.
-/

/-- A class of characters that has a letter of its own. -/
inductive CharClass where
  | digit
  | word
  deriving Repr, DecidableEq

/-- A place in a line that a pattern can demand without consuming text. -/
inductive Anchor where
  | lineStart
  | lineEnd
  deriving Repr, DecidableEq

/-- How many occurrences a repetition allows. -/
inductive RepeatKind where
  | zeroOrOne
  | zeroOrMore
  | oneOrMore
  deriving Repr, DecidableEq

/-- A bracketed set: its members in order of first appearance. -/
structure CharSet where
  chars : List Char
  negated : Bool
  deriving Repr, DecidableEq

/-- One node of a pattern tree. -/
inductive Node where
  | literal (char : Char)
  | dot
  | charClass (kind : CharClass)
  | set (members : CharSet)
  | anchor (place : Anchor)
  | concat (items : List Node)
  | alternation (branches : List Node)
  | repetition (body : Node) (kind : RepeatKind) (greedy : Bool)
  | group (index : Nat) (body : Node)
  | backref (index : Nat)
  deriving Repr, BEq

namespace Node

/-- The sub-pattern that matches the empty text everywhere. -/
def empty : Node :=
  .concat []

/-- A greedy repetition wants its last generated way tried first. -/
def isGreedyRepeat : Node → Bool
  | .repetition _ _ greedy => greedy
  | _ => false

end Node

/-- A pattern ready to be matched against any number of lines. -/
structure Pattern where
  root : Node
  groupCount : Nat
  /-- Only the first offset of a line is tried. -/
  anchoredStart : Bool
  /-- The text that denotes the pattern. -/
  source : String
  deriving Repr

end LineSearch
