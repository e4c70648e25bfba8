import LineSearch.Pattern.Basic
import LineSearch.Text.Quoted

namespace LineSearch

/-!
# Trees on one line

A tree is written out for whoever traces a search: every node by its kind, with
its fields in a fixed order, and characters quoted.
-/

/-- Entries between brackets, separated by a comma and a blank. -/
def bracketed (entries : List String) : String :=
  "[" ++ String.intercalate ", " entries ++ "]"

namespace CharClass

/-- The name of a class in a written tree. -/
def dump : CharClass → String
  | .digit => "Digit"
  | .word => "Word"

end CharClass

namespace Anchor

/-- The name of an anchor in a written tree. -/
def dump : Anchor → String
  | .lineStart => "Start"
  | .lineEnd => "End"

end Anchor

namespace RepeatKind

/-- The name of a kind of repetition in a written tree. -/
def dump : RepeatKind → String
  | .zeroOrOne => "ZeroOrOne"
  | .zeroOrMore => "ZeroOrMore"
  | .oneOrMore => "OneOrMore"

end RepeatKind

namespace CharSet

/-- A set in a written tree. -/
def dump (members : CharSet) : String :=
  "CharSet \x7b chars: " ++ bracketed (members.chars.map Quoted.char) ++
    ", negated: " ++ toString members.negated ++ " \x7d"

end CharSet

namespace Node

mutual

/-- A tree written on one line. -/
def dump : Node → String
  | .literal char => "Literal(" ++ Quoted.char char ++ ")"
  | .dot => "Dot"
  | .charClass kind => "Class(" ++ kind.dump ++ ")"
  | .set members => "Set(" ++ members.dump ++ ")"
  | .anchor place => "Anchor(" ++ place.dump ++ ")"
  | .concat items => "Concat(" ++ bracketed (dumpAll items) ++ ")"
  | .alternation branches => "Alternation(" ++ bracketed (dumpAll branches) ++ ")"
  | .repetition body kind greedy =>
      "Repeat \x7b node: " ++ dump body ++ ", kind: " ++ kind.dump ++
        ", greedy: " ++ toString greedy ++ " \x7d"
  | .group index body =>
      "Group \x7b index: " ++ toString index ++ ", node: " ++ dump body ++ " \x7d"
  | .backref index => "Backref(" ++ toString index ++ ")"

/-- Every tree of a list, each written on one line. -/
def dumpAll : List Node → List String
  | [] => []
  | node :: rest => dump node :: dumpAll rest

end

end Node

end LineSearch
