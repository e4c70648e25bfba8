import LineSearch.Proofs.Inside
import LineSearch.Proofs.Ways

namespace LineSearch

/-!
# How a node consumes text

The meaning of a pattern tree, said without lists and without an order: a node
leads from one progress to another by consuming the text between their offsets.
When a repetition may go on behind an occurrence is left open.  The search goes
on only behind an occurrence that consumed something; a repetition that may
always go on is the one that readers of patterns have in mind.
-/

namespace Node

/-- A character that a node for a single character admits. -/
def Admits : Node → Char → Prop
  | .literal expected, char => char = expected
  | .dot, _ => True
  | .charClass kind, char => kind.contains char = true
  | .set members, char =>
      if members.negated then
        char ∉ members.chars
      else
        char ∈ members.chars
  | _, _ => False

/-- Admitting a character is having a test for it that it passes. -/
theorem admits_iff_test?
    {node : Node}
    {char : Char} :
    node.Admits char ↔
      ∃ test, node.test? = some test ∧ test char = true := by
  cases node with
  | set members =>
      rcases members with ⟨chars, negated⟩
      cases negated <;> simp [Admits, test?, CharSet.contains]
  | _ => simp [Admits, test?]

/--
The node consumes what lies between two progresses of this line.  `goesOn` says
whether a repetition may follow an occurrence, from the first progress to the
second, by another one.
-/
inductive Consumes
    (chars : Line)
    (goesOn : Progress → Progress → Prop) :
    Node → Progress → Progress → Prop where
  /-- A literal, a dot, a class or a set consumes one character that fits. -/
  | single
      {node : Node}
      {start : Progress}
      {char : Char} :
      chars[start.offset]? = some char →
      node.Admits char →
      Consumes chars goesOn node start
        ⟨start.offset + 1, start.captures⟩
  /-- An anchor consumes nothing, at its offset. -/
  | anchor
      {place : Anchor}
      {start : Progress} :
      start.offset = place.offset chars →
      Consumes chars goesOn (.anchor place) start start
  /-- No items consume nothing. -/
  | concatNil
      {start : Progress} :
      Consumes chars goesOn (.concat []) start start
  /-- Items consume one after the other. -/
  | concatCons
      {item : Node}
      {rest : List Node}
      {start middle stop : Progress} :
      Consumes chars goesOn item start middle →
      Consumes chars goesOn (.concat rest) middle stop →
      Consumes chars goesOn (.concat (item :: rest)) start stop
  /-- An alternation consumes what any one of its branches does. -/
  | branch
      {branch : Node}
      {branches : List Node}
      {start stop : Progress} :
      branch ∈ branches →
      Consumes chars goesOn branch start stop →
      Consumes chars goesOn (.alternation branches) start stop
  /-- Unless it demands one, a repetition may have no occurrence. -/
  | noOccurrence
      {body : Node}
      {kind : RepeatKind}
      {greedy : Bool}
      {start : Progress} :
      kind ≠ .oneOrMore →
      Consumes chars goesOn (.repetition body kind greedy) start start
  /-- Any repetition may have one occurrence. -/
  | oneOccurrence
      {body : Node}
      {kind : RepeatKind}
      {greedy : Bool}
      {start stop : Progress} :
      Consumes chars goesOn body start stop →
      Consumes chars goesOn (.repetition body kind greedy) start stop
  /-- Unless it forbids a second one, a repetition may go on behind the first. -/
  | furtherOccurrences
      {body : Node}
      {kind : RepeatKind}
      {greedy : Bool}
      {start middle stop : Progress} :
      kind ≠ .zeroOrOne →
      Consumes chars goesOn body start middle →
      goesOn start middle →
      Consumes chars goesOn
        (.repetition body .zeroOrMore greedy) middle stop →
      Consumes chars goesOn (.repetition body kind greedy) start stop
  /-- A group lets its slot hold what its body consumed. -/
  | group
      {index : Nat}
      {body : Node}
      {start stop : Progress} :
      Consumes chars goesOn body start stop →
      Consumes chars goesOn (.group index body) start
        ⟨stop.offset,
          stop.captures.record index ⟨start.offset, stop.offset⟩⟩
  /-- A back reference consumes a copy of the text its slot holds, unless that is empty. -/
  | backref
      {index : Nat}
      {span : Span}
      {start : Progress}
      {stop : Nat} :
      start.captures.span? index = some span →
      span.start < span.stop →
      stop = start.offset + span.length →
      stop ≤ chars.size →
      Span.of ⟨start.offset, stop⟩ chars = span.of chars →
      Consumes chars goesOn (.backref index) start
        ⟨stop, start.captures⟩

/-- An occurrence has consumed something. -/
def Moved (before after : Progress) : Prop :=
  after.offset ≠ before.offset

/-- Consumption where every occurrence but the last consumes something. -/
abbrev Matches (chars : Line) : Node → Progress → Progress → Prop :=
  Consumes chars Moved

/-- Consumption where any finite number of occurrences may follow one another. -/
abbrev MatchesFreely (chars : Line) : Node → Progress → Progress → Prop :=
  Consumes chars fun _ _ => True

namespace Consumes

variable
  {chars : Line}
  {goesOn : Progress → Progress → Prop}
  {node : Node}
  {start stop : Progress}

/-- No node goes back in the line. -/
theorem forward
    (consumes : Consumes chars goesOn node start stop) :
    start.offset ≤ stop.offset := by
  induction consumes with
  | single => exact Nat.le_succ _
  | anchor | concatNil | noOccurrence => exact Nat.le_refl _
  | concatCons _ _ ofItem ofRest => exact Nat.le_trans ofItem ofRest
  | branch _ _ ofBranch => exact ofBranch
  | oneOccurrence _ ofBody => exact ofBody
  | furtherOccurrences _ _ _ _ ofFirst ofRest =>
      exact Nat.le_trans ofFirst ofRest
  | group _ ofBody => exact ofBody
  | backref _ _ isStop => exact isStop ▸ Nat.le_add_right _ _

/-- No node leaves the line, and none records anything outside of it. -/
theorem inside
    (consumes : Consumes chars goesOn node start stop)
    (startInside : start.Inside chars) :
    stop.Inside chars := by
  induction consumes with
  | single present =>
      obtain ⟨bounded, _⟩ := Array.getElem?_eq_some_iff.mp present
      exact ⟨bounded, startInside.captures⟩
  | anchor | concatNil | noOccurrence => exact startInside
  | concatCons _ _ ofItem ofRest => exact ofRest (ofItem startInside)
  | branch _ _ ofBranch => exact ofBranch startInside
  | oneOccurrence _ ofBody => exact ofBody startInside
  | furtherOccurrences _ _ _ _ ofFirst ofRest =>
      exact ofRest (ofFirst startInside)
  | group body ofBody =>
      have stopInside := ofBody startInside
      exact ⟨stopInside.offset_le,
        stopInside.captures.record _ body.forward stopInside.offset_le⟩
  | backref _ _ _ bounded => exact ⟨bounded, startInside.captures⟩

/-- Going on more often loses nothing. -/
theorem mono
    {others : Progress → Progress → Prop}
    (consumes : Consumes chars goesOn node start stop)
    (more : ∀ before after, goesOn before after → others before after) :
    Consumes chars others node start stop := by
  induction consumes with
  | single present admitted => exact .single present admitted
  | anchor here => exact .anchor here
  | concatNil => exact .concatNil
  | concatCons _ _ ofItem ofRest => exact .concatCons ofItem ofRest
  | branch member _ ofBranch => exact .branch member ofBranch
  | noOccurrence allowed => exact .noOccurrence allowed
  | oneOccurrence _ ofBody => exact .oneOccurrence ofBody
  | furtherOccurrences allowed _ goes _ ofFirst ofRest =>
      exact .furtherOccurrences allowed ofFirst (more _ _ goes) ofRest
  | group _ ofBody => exact .group ofBody
  | backref held nonempty isStop bounded same =>
      exact .backref held nonempty isStop bounded same

end Consumes

end Node

end LineSearch
