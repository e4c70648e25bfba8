import LineSearch.Proofs.EmptyCapture

namespace LineSearch

/-!
# No access is out of range

Matching takes stretches out of the line, for back references and for what is
reported, and writes into slots.  Here is matching once more with a bounds check
at each of these accesses: it gives up where one is out of range.  It never
does, whatever tree is matched, since an attempt stays inside the line and only
ever records what it has gone over.
-/

namespace Span

/-- The characters of a stretch, if it lies in the line. -/
def of? (span : Span) (chars : Line) : Option (Array Char) :=
  if span.start ≤ span.stop ∧ span.stop ≤ chars.size then
    some (span.of chars)
  else
    none

variable {span : Span} {chars : Line}

theorem of?_eq_some
    (ordered : span.start ≤ span.stop)
    (bounded : span.stop ≤ chars.size) :
    span.of? chars = some (span.of chars) :=
  if_pos ⟨ordered, bounded⟩

theorem size_of
    (bounded : span.stop ≤ chars.size) :
    (span.of chars).size = span.length := by
  rw [of, Array.size_extract, Nat.min_eq_left bounded, length]

/-- As many characters as stand elsewhere in the line are only found in the line. -/
theorem of?_eq_some_iff
    (chars : Line)
    {text : Array Char}
    (nonempty : text.size ≠ 0)
    (offset : Nat) :
    of? ⟨offset, offset + text.size⟩ chars = some text ↔
      chars.extract offset (offset + text.size) = text := by
  by_cases bounded : offset + text.size ≤ chars.size
  · rw [of?_eq_some (Nat.le_add_right _ _) bounded, Option.some_inj]
    rfl
  · rw [of?, if_neg fun within => bounded within.2]
    constructor
    · rintro ⟨⟩
    · intro same
      have size := congrArg Array.size same
      rw [Array.size_extract] at size
      omega

end Span

namespace Captures

/-- Let a group hold a stretch, if its slot is there once slots are added up to its index. -/
def record? (captures : Captures) (index : Nat) (span : Span) : Option Captures :=
  let grown := captures.grow index
  if present : index < grown.size then
    some (grown.set index (some span) present)
  else
    none

/-- Behind the growth the slot is there. -/
theorem record?_eq_some
    (captures : Captures)
    (index : Nat)
    (span : Span) :
    captures.record? index span = some (captures.record index span) := by
  have present : index < (captures.grow index).size := by
    rw [size_grow]
    omega
  rw [record?, dif_pos present, record, Array.setIfInBounds, dif_pos present]

end Captures

namespace Progress

/-- Consume what a stretch holds once more, unless it holds nothing, with a check of the stretch. -/
def copy?
    (start : Progress)
    (chars : Line)
    (span : Span) :
    Option (List Progress) :=
  if span.length = 0 then
    some []
  else
    (span.of? chars).map fun text =>
      let stop := start.offset + text.size
      if Span.of? ⟨start.offset, stop⟩ chars = some text then
        [{ start with offset := stop }]
      else
        []

theorem copy?_eq_some
    (start : Progress)
    {chars : Line}
    {span : Span}
    (ordered : span.start ≤ span.stop)
    (bounded : span.stop ≤ chars.size) :
    start.copy? chars span = some (start.copy chars span) := by
  by_cases empty : span.length = 0
  · simp [copy?, copy, empty]
  · have size := Span.size_of bounded
    have nonempty : (span.of chars).size ≠ 0 := size ▸ empty
    have found := Span.of?_eq_some_iff chars nonempty start.offset
    rw [size] at found
    rw [copy?, if_neg empty, Span.of?_eq_some ordered bounded,
      Option.map_some]
    simp only [size, found, copy, ne_eq, empty, not_false_eq_true, true_and]

/-- Close a group, with a check of its slot. -/
def closeGroup? (way : Progress) (index opened : Nat) : Option Progress :=
  (way.captures.record? index ⟨opened, way.offset⟩).map fun captures =>
    { way with captures := captures }

theorem closeGroup?_eq_some
    (way : Progress)
    (index opened : Nat) :
    way.closeGroup? index opened = some (way.closeGroup index opened) := by
  rw [closeGroup?, Captures.record?_eq_some]
  rfl

end Progress

namespace Unroll

/-- Empty a stack by a step that may give up. -/
def drain?
    (length : Nat)
    (step : Progress → Option (List Progress)) :
    List Pending → List Progress → Option (List Progress)
  | [], done => some done.reverse
  | (current, false) :: stack, done =>
      drain? length step stack (current :: done)
  | (current, true) :: stack, done =>
      match _ : step current with
      | none => none
      | some ways =>
          drain? length step
            ((ways.map fun next => (next, advances length current next)) ++
              stack)
            (current :: done)
  termination_by stack _ =>
    (stack.flatMap
      (outputs length fun progress => (step progress).getD [])).length
  decreasing_by
    · simp [outputs]
    · next stepped =>
        simp [outputs, successors, walk_eq length _ current, stepped]

/-- A loop whose step does not give up anywhere it comes to does not give up. -/
theorem drain?_eq_some
    {length : Nat}
    {step? : Progress → Option (List Progress)}
    {step : Progress → List Progress}
    {admitted : Progress → Prop}
    (agrees : ∀ start, admitted start → step? start = some (step start))
    (keeps : ∀ start, admitted start → ∀ way ∈ step start, admitted way)
    (stack : List Pending)
    (done : List Progress)
    (entries : ∀ pending ∈ stack, admitted pending.1) :
    drain? length step? stack done = some (drain length step stack done) := by
  induction stack, done using drain.induct length step with
  | case1 done => rw [drain?, drain]
  | case2 current stack done inductionHypothesis =>
      obtain ⟨-, below⟩ := List.forall_mem_cons.mp entries
      rw [drain?, drain, inductionHypothesis below]
  | case3 current stack done inductionHypothesis =>
      obtain ⟨here, below⟩ := List.forall_mem_cons.mp entries
      have further :
          ∀ pending ∈ successors length step current ++ stack,
            admitted pending.1 := by
        refine List.forall_mem_append.mpr ⟨fun pending member => ?_, below⟩
        obtain ⟨way, listed, rfl⟩ := List.mem_map.mp member
        exact keeps current here way listed
      have stepped := agrees current here
      rw [drain?, drain, ← inductionHypothesis further]
      split
      · next gaveUp => cases gaveUp.symm.trans stepped
      · next listed =>
          obtain rfl := Option.some.inj (listed.symm.trans stepped)
          rfl

end Unroll

namespace Node

mutual

/-- Every way to match a node, unless an access on the way is out of range. -/
def possibilities?
    (chars : Line)
    (node : Node)
    (start : Progress) :
    Option (List Progress) :=
  match node with
  | .concat items => sequence? chars items start
  | .alternation branches => choices? chars branches start
  | .repetition body .zeroOrOne _ =>
      (possibilities? chars body start).map (start :: ·)
  | .repetition body .zeroOrMore _ =>
      Unroll.drain? chars.size (possibilities? chars body) [(start, true)] []
  | .repetition body .oneOrMore _ => do
      let first ← possibilities? chars body start
      Unroll.drain? chars.size (possibilities? chars body)
        (first.map fun way => (way, Unroll.advances chars.size start way)) []
  | .group index body => do
      let ways ← possibilities? chars body start
      (prefer body ways).mapM (·.closeGroup? index start.offset)
  | .backref index =>
      match start.captures.span? index with
      | some span => start.copy? chars span
      | none => some []
  | .literal _ | .dot | .charClass _ | .set _ | .anchor _ =>
      some (possibilities chars node start)

/-- Every way to match these nodes one after the other, unless an access is out of range. -/
def sequence?
    (chars : Line) :
    List Node → Progress → Option (List Progress)
  | [], start => some [start]
  | item :: rest, start => do
      let first ← possibilities? chars item start
      let later ← (prefer item first).mapM (sequence? chars rest)
      return later.flatten

/-- Every way to match one of these nodes, unless an access is out of range. -/
def choices?
    (chars : Line) :
    List Node → Progress → Option (List Progress)
  | [], _ => some []
  | branch :: rest, start => do
      let ofBranch ← possibilities? chars branch start
      let ofRest ← choices? chars rest start
      return prefer branch ofBranch ++ ofRest

end

variable {chars : Line} {start : Progress}

/-- What does not give up on any member does not give up on the list. -/
theorem mapM_eq_some
    {items : List α}
    {follow? : α → Option β}
    {follow : α → β}
    (agrees : ∀ item ∈ items, follow? item = some (follow item)) :
    items.mapM follow? = some (items.map follow) := by
  induction items with
  | nil => rfl
  | cons item rest inductionHypothesis =>
      obtain ⟨ofItem, ofRest⟩ := List.forall_mem_cons.mp agrees
      rw [List.mapM_cons, ofItem, inductionHypothesis ofRest]
      rfl

theorem possibilities?_of_test?
    {node : Node}
    {test : Char → Bool}
    (tested : node.test? = some test) :
    possibilities? chars node start = some (possibilities chars node start) := by
  cases node <;> first | rfl | cases tested

theorem sequence?_eq_some
    {items : List Node}
    (ofItems :
      ∀ item ∈ items, ∀ start : Progress, start.Inside chars →
        possibilities? chars item start =
          some (possibilities chars item start))
    (inside : start.Inside chars) :
    sequence? chars items start = some (sequence chars items start) := by
  induction items generalizing start with
  | nil => rw [sequence?, sequence]
  | cons item rest inductionHypothesis =>
      obtain ⟨ofItem, ofRest⟩ := List.forall_mem_cons.mp ofItems
      have later :
          (prefer item (possibilities chars item start)).mapM
              (sequence? chars rest) =
            some
              ((prefer item (possibilities chars item start)).map
                (sequence chars rest)) := by
        refine mapM_eq_some fun way among => ?_
        exact
          inductionHypothesis ofRest
            (inside_of_mem_possibilities inside (mem_prefer.mp among))
      rw [sequence?, sequence, ofItem start inside, Option.bind_eq_bind,
        Option.bind_some, later, List.flatMap_def]
      rfl

theorem choices?_eq_some
    {branches : List Node}
    (ofBranches :
      ∀ branch ∈ branches,
        possibilities? chars branch start =
          some (possibilities chars branch start)) :
    choices? chars branches start = some (choices chars branches start) := by
  induction branches with
  | nil => rw [choices?, choices]
  | cons branch rest inductionHypothesis =>
      obtain ⟨ofBranch, ofRest⟩ := List.forall_mem_cons.mp ofBranches
      rw [choices?, choices, ofBranch, inductionHypothesis ofRest]
      rfl

/-- From inside the line, no access on the way to the ways of a node is out of range. -/
theorem possibilities?_eq_some
    (node : Node)
    (inside : start.Inside chars) :
    possibilities? chars node start = some (possibilities chars node start) := by
  induction node using treeInduction generalizing start with
  | single node test tested => exact possibilities?_of_test? tested
  | anchor place => rw [possibilities?]
  | concat items inductionHypothesis =>
      rw [possibilities?, possibilities]
      exact
        sequence?_eq_some
          (fun item among start inside =>
            inductionHypothesis item among inside)
          inside
  | alternation branches inductionHypothesis =>
      rw [possibilities?, possibilities]
      exact
        choices?_eq_some fun branch among =>
          inductionHypothesis branch among inside
  | repetition body kind greedy inductionHypothesis =>
      have loops (stack : List Unroll.Pending)
          (entries : ∀ pending ∈ stack, pending.1.Inside chars) :
          Unroll.drain? chars.size (possibilities? chars body) stack [] =
            some (Unroll.unroll chars.size (possibilities chars body) stack) :=
        Unroll.drain?_eq_some
          (fun start inside => inductionHypothesis inside)
          (fun start inside way listed =>
            inside_of_mem_possibilities inside listed)
          stack [] entries
      cases kind with
      | zeroOrOne =>
          rw [possibilities?, possibilities, inductionHypothesis inside]
          rfl
      | zeroOrMore =>
          rw [possibilities?, possibilities]
          exact loops _ (List.forall_mem_singleton.mpr inside)
      | oneOrMore =>
          rw [possibilities?, possibilities, inductionHypothesis inside,
            Option.bind_eq_bind, Option.bind_some]
          refine loops _ fun pending member => ?_
          obtain ⟨way, listed, rfl⟩ := List.mem_map.mp member
          exact inside_of_mem_possibilities inside listed
  | group index body inductionHypothesis =>
      rw [possibilities?, possibilities, inductionHypothesis inside,
        Option.bind_eq_bind, Option.bind_some]
      exact mapM_eq_some fun way _ => way.closeGroup?_eq_some index start.offset
  | backref index =>
      rw [possibilities?, possibilities]
      cases held : start.captures.span? index with
      | some span =>
          obtain ⟨ordered, bounded⟩ := inside.captures index span held
          exact start.copy?_eq_some ordered bounded
      | none => rfl

end Node

namespace Pattern

open Node

/-- The preferred way from this offset on, unless an access is out of range. -/
def tryAt?
    (pattern : Pattern)
    (chars : Line)
    (offset : Nat) :
    Option (Option Progress) :=
  (possibilities? chars pattern.root (pattern.begin offset)).map fun ways =>
    (prefer pattern.root ways).head?

/-- The first of these offsets that admits a match, unless an access is out of range before. -/
def firstOf?
    (pattern : Pattern)
    (chars : Line) :
    List Nat → Option (Option Found)
  | [] => some none
  | offset :: rest => do
      match ← pattern.tryAt? chars offset with
      | some final => return some ⟨offset, final⟩
      | none => pattern.firstOf? chars rest

/-- The text each slot holds, unless one holds a stretch that is not in the line. -/
def readTexts? (chars : Line) (captures : Captures) : Option (List String) :=
  captures.toList.mapM fun
    | some span => (span.of? chars).map fun text => String.ofList text.toList
    | none => some ""

/-- Look for a match in the line, unless an access is out of range. -/
def lookFor? (pattern : Pattern) (chars : Line) : Option (Option Found) :=
  pattern.firstOf? chars (List.range (pattern.lastStart chars + 1))

/-- Match the pattern against one line, unless an access is out of range. -/
def matchLine? (pattern : Pattern) (text : String) : Option Outcome := do
  let chars := Line.ofText text
  match ← pattern.lookFor? chars with
  | some found =>
      let captures ← readTexts? chars found.final.captures
      return {
        matched := true
        start := found.start
        stop := found.final.offset
        captures := captures
      }
  | none => return .unmatched

/-- Does the pattern match somewhere in the line, unless an access is out of range? -/
def isMatch? (pattern : Pattern) (text : String) : Option Bool :=
  (pattern.lookFor? (Line.ofText text)).map Option.isSome

variable {pattern : Pattern} {chars : Line}

theorem tryAt?_eq_some
    {offset : Nat}
    (tried : offset ≤ pattern.lastStart chars) :
    pattern.tryAt? chars offset = some (pattern.matchAt? chars offset) := by
  rw [tryAt?, possibilities?_eq_some _ (pattern.begin_inside tried)]
  rfl

theorem firstOf?_eq_some
    {offsets : List Nat}
    (tried : ∀ offset ∈ offsets, offset ≤ pattern.lastStart chars) :
    pattern.firstOf? chars offsets =
      some
        (offsets.findSome? fun offset =>
          (pattern.matchAt? chars offset).map fun final =>
            ⟨offset, final⟩) := by
  induction offsets with
  | nil => rfl
  | cons offset rest inductionHypothesis =>
      obtain ⟨ofOffset, ofRest⟩ := List.forall_mem_cons.mp tried
      rw [firstOf?, tryAt?_eq_some ofOffset, Option.bind_eq_bind,
        Option.bind_some, List.findSome?_cons]
      cases pattern.matchAt? chars offset with
      | some final => rfl
      | none => exact inductionHypothesis ofRest

theorem lookFor?_eq_some
    (pattern : Pattern)
    (chars : Line) :
    pattern.lookFor? chars = some (pattern.find? chars) :=
  firstOf?_eq_some fun _ among => Nat.le_of_lt_succ (List.mem_range.mp among)

theorem readTexts?_eq_some
    {captures : Captures}
    (inside : captures.Inside chars.size) :
    readTexts? chars captures = some (capturedTexts chars captures) := by
  refine mapM_eq_some fun slot isSlot => ?_
  cases slot with
  | none => rfl
  | some span =>
      obtain ⟨index, held⟩ := Captures.exists_span?_eq_of_mem isSlot
      obtain ⟨ordered, bounded⟩ := inside index span held
      simp only [Span.of?_eq_some ordered bounded, Option.map_some, Span.text]

theorem isMatch?_eq_some
    (pattern : Pattern)
    (text : String) :
    pattern.isMatch? text = some (pattern.isMatch text) := by
  rw [isMatch?, lookFor?_eq_some]
  rfl

theorem matchLine?_eq_some
    (pattern : Pattern)
    (text : String) :
    pattern.matchLine? text = some (pattern.matchLine text) := by
  rw [matchLine?, lookFor?_eq_some, Option.bind_eq_bind, Option.bind_some]
  cases isFound : pattern.find? (Line.ofText text) with
  | none =>
      rw [matchLine_of_find?_eq_none isFound]
      rfl
  | some found =>
      obtain ⟨tried, preferred, -⟩ := find?_eq_some_iff.mp isFound
      have final :=
        inside_of_mem_possibilities (pattern.begin_inside tried)
          (mem_of_matchAt? preferred)
      rw [matchLine_of_find? isFound]
      simp only [readTexts?_eq_some final.captures]
      rfl

/--
Any pattern, compiled or not, and any line.  Wherever the ways of a node are asked
for, the offset is in the line or at its end, the ways end between there and the
end of the line, and all slots hold stretches of the line, before and behind the
node.  A group finds its slot behind the growth.

So matching with bounds checks is the matching there is: neither a back reference
nor a slot nor what is reported is ever out of range.
-/
theorem matching_stays_in_range
    (pattern : Pattern)
    (line : String) :
    let chars := Line.ofText line
    (∀ offset node start,
      offset ≤ pattern.lastStart chars →
      Calls chars pattern.root (pattern.begin offset) node start →
        start.offset ≤ line.length ∧
          start.captures.Inside line.length ∧
          (∀ way ∈ node.possibilities chars start,
            start.offset ≤ way.offset ∧
              way.offset ≤ line.length ∧
              way.captures.Inside line.length) ∧
          (∀ index body,
            node = .group index body →
              ∀ way ∈ body.possibilities chars start,
                index < (way.captures.grow index).size) ∧
          node.possibilities? chars start =
            some (node.possibilities chars start)) ∧
      pattern.isMatch? line = some (pattern.isMatch line) ∧
      pattern.matchLine? line = some (pattern.matchLine line) := by
  intro chars
  refine
    ⟨?_, isMatch?_eq_some pattern line, matchLine?_eq_some pattern line⟩
  intro offset node start tried calls
  have inside := (calls.since (pattern.begin_since tried)).inside
  rw [← Line.size_ofText line]
  refine
    ⟨inside.offset_le, inside.captures, fun way listed => ?_,
      fun index body _ way _ => ?_, possibilities?_eq_some node inside⟩
  · have ofWay := inside_of_mem_possibilities inside listed
    exact
      ⟨le_offset_of_mem_possibilities inside listed, ofWay.offset_le,
        ofWay.captures⟩
  · rw [Captures.size_grow]
    omega

/--
No pattern that is compiled has these groups: one has the slot that is reported as
empty, one is beyond the number of groups, and one reference is to none of them.
-/
theorem matching_stays_in_range_beyond_the_slots :
    let reference : Node := .alternation [.backref 9, .backref 3]
    let pattern : Pattern :=
      { root := .concat [.group 0 .dot, .group 3 (.literal 'a'), reference]
        groupCount := 0
        anchoredStart := false
        source := "" }
    let start : Progress := ⟨2, #[some ⟨0, 1⟩, none, none, some ⟨1, 2⟩]⟩
    let chars := Line.ofText "xaa"
    0 ≤ pattern.lastStart chars ∧
      Calls chars pattern.root (pattern.begin 0) reference start ∧
      start.captures.Inside 3 ∧
      reference.possibilities? chars start =
        some [⟨3, #[some ⟨0, 1⟩, none, none, some ⟨1, 2⟩]⟩] ∧
      pattern.matchLine? "xaa" =
        some
          { matched := true
            start := 0
            stop := 3
            captures := ["x", "", "", "a"] } := by
  intro reference pattern start chars
  have first :
      ⟨1, #[some ⟨0, 1⟩]⟩ ∈
        possibilities chars (.group 0 .dot) (pattern.begin 0) := by
    decide
  have second :
      start ∈
        possibilities chars (.group 3 (.literal 'a'))
          ⟨1, #[some ⟨0, 1⟩]⟩ := by
    decide
  have calls :
      Calls chars pattern.root (pattern.begin 0) reference start :=
    .laterItem first (.laterItem second (.firstItem .self))
  have listed :
      reference.possibilities chars start =
        [⟨3, #[some ⟨0, 1⟩, none, none, some ⟨1, 2⟩]⟩] := by
    decide
  have reported :
      pattern.matchLine "xaa" =
        { matched := true
          start := 0
          stop := 3
          captures := ["x", "", "", "a"] } := by
    decide
  obtain ⟨ofCalls, -, ofLine⟩ := matching_stays_in_range pattern "xaa"
  obtain ⟨-, inside, -, -, checked⟩ :=
    ofCalls 0 reference start (Nat.zero_le _) calls
  exact
    ⟨Nat.zero_le _, calls, inside, checked.trans (congrArg some listed),
      ofLine.trans (congrArg some reported)⟩

end Pattern

end LineSearch
