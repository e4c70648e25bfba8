import LineSearch.Match.Unroll
import LineSearch.Pattern.CharClass

namespace LineSearch

/-!
# Every way to match a node

From a given progress, a node can consume a prefix of what is left of the line in
several ways. They are listed all, in the order in which the node generates them:
the branches of an alternation from left to right, the repetitions of a
repetition from the fewest on.

Whoever takes over the list of a greedy repetition turns it around, and that is
what makes greed: a concatenation, an alternation and a group do so for their
parts, the search for the whole pattern. A repetition does not for its body.
-/

/-- The ways of a node in order of preference: those of a greedy repetition turned around. -/
def prefer (node : Node) (ways : List Progress) : List Progress :=
  if node.isGreedyRepeat then ways.reverse else ways

theorem mem_prefer
    {node : Node}
    {ways : List Progress}
    {way : Progress} :
    way ∈ prefer node ways ↔ way ∈ ways := by
  unfold prefer
  split <;> simp

namespace Progress

/-- Consume one character, if it is there and admitted. -/
def consume
    (start : Progress)
    (chars : Line)
    (admits : Char → Bool) :
    List Progress :=
  match chars[start.offset]? with
  | some char =>
      if admits char then
        [{ start with offset := start.offset + 1 }]
      else
        []
  | none => []

/-- Consume nothing, if the place is right. -/
def stay (start : Progress) (right : Bool) : List Progress :=
  if right then [start] else []

/-- Consume what a stretch of the line holds once more, unless it holds nothing. -/
def copy
    (start : Progress)
    (chars : Line)
    (span : Span) :
    List Progress :=
  let stop := start.offset + span.length
  if span.length ≠ 0 ∧ chars.extract start.offset stop = span.of chars then
    [{ start with offset := stop }]
  else
    []

/-- Let a group that was opened at this offset hold all that was consumed since. -/
def closeGroup (way : Progress) (index opened : Nat) : Progress :=
  { way with captures := way.captures.record index ⟨opened, way.offset⟩ }

end Progress

namespace Node

mutual

/-- Every way to match a node from this progress on, in order of generation. -/
def possibilities (chars : Line) : Node → Progress → List Progress
  | .literal char, start => start.consume chars (· == char)
  | .dot, start => start.consume chars fun _ => true
  | .charClass kind, start => start.consume chars kind.contains
  | .set members, start => start.consume chars members.contains
  | .anchor .lineStart, start => start.stay (start.offset == 0)
  | .anchor .lineEnd, start => start.stay (start.offset == chars.size)
  | .concat items, start => sequence chars items start
  | .alternation branches, start => choices chars branches start
  | .repetition body .zeroOrOne _, start =>
      start :: possibilities chars body start
  | .repetition body .zeroOrMore _, start =>
      Unroll.unroll chars.size (possibilities chars body) [(start, true)]
  | .repetition body .oneOrMore _, start =>
      Unroll.unroll chars.size (possibilities chars body)
        (Unroll.successors chars.size (possibilities chars body) start)
  | .group index body, start =>
      (prefer body (possibilities chars body start)).map
        (·.closeGroup index start.offset)
  | .backref index, start =>
      match start.captures.span? index with
      | some span => start.copy chars span
      | none => []

/-- Every way to match these nodes one after the other. -/
def sequence (chars : Line) : List Node → Progress → List Progress
  | [], start => [start]
  | item :: rest, start =>
      (prefer item (possibilities chars item start)).flatMap (sequence chars rest)

/-- Every way to match one of these nodes, the first one's ways first. -/
def choices (chars : Line) : List Node → Progress → List Progress
  | [], _ => []
  | branch :: rest, start =>
      prefer branch (possibilities chars branch start) ++ choices chars rest start

end

/-- Every way to match a node from this progress on, in order of preference. -/
def orderedPossibilities
    (chars : Line)
    (node : Node)
    (start : Progress) :
    List Progress :=
  prefer node (possibilities chars node start)

end Node

end LineSearch
