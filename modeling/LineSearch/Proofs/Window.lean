import LineSearch.Proofs.CanonicalTree
import LineSearch.Proofs.FirstMatch
import Mathlib

namespace LineSearch

/-!
# A line inside a longer line

Without anchors a node sees no more of a line than the text it consumes.  Put
into a longer line, a text is matched there in the ways in which it is matched
alone, moved by the length of what stands in front of it; all other ways from
the same place end behind the text.

The lists are compared by what is left of the longer line's list when the ways
that end behind the text are taken out.  No way goes back, so with a way all
that follows from it is taken out, and the comparison can be carried through
concatenations and repetitions.
-/

namespace Span

/-- The stretch that is as long and starts so much later. -/
def shift (distance : Nat) (span : Span) : Span :=
  ⟨span.start + distance, span.stop + distance⟩

@[simp] theorem length_shift
    (distance : Nat)
    (span : Span) :
    (span.shift distance).length = span.length := by
  simp only [length, shift]
  omega

end Span

namespace Captures

/-- The slots with every stretch moved. -/
def shift (distance : Nat) (captures : Captures) : Captures :=
  captures.map (Option.map (Span.shift distance))

@[simp] theorem span?_shift
    (distance : Nat)
    (captures : Captures)
    (index : Nat) :
    (captures.shift distance).span? index =
      (captures.span? index).map (Span.shift distance) := by
  simp only [span?, shift, Array.getElem?_map]
  cases captures[index]? <;> rfl

@[simp] theorem shift_unset
    (distance groupCount : Nat) :
    (unset groupCount).shift distance = unset groupCount := by
  simp [shift, unset]

theorem shift_record
    (distance : Nat)
    (captures : Captures)
    (index : Nat)
    (span : Span) :
    (captures.record index span).shift distance =
      (captures.shift distance).record index (span.shift distance) := by
  simp [shift, record, grow, Array.rightpad, Array.map_setIfInBounds]

end Captures

namespace Progress

/-- The same progress in a line that has so many more characters in front. -/
def shift (distance : Nat) (progress : Progress) : Progress :=
  ⟨progress.offset + distance, progress.captures.shift distance⟩

theorem shift_closeGroup
    (distance : Nat)
    (way : Progress)
    (index opened : Nat) :
    (way.closeGroup index opened).shift distance =
      (way.shift distance).closeGroup index (opened + distance) := by
  simp only [shift, closeGroup, Captures.shift_record]
  rfl

end Progress

/-- A part of a line: how many characters stand in front of it, and how many it has. -/
structure Window where
  distance : Nat
  size : Nat

namespace Window

/-- Those ways of the first list that end in the window are the second list, moved there. -/
def Shows (window : Window) (wide narrow : List Progress) : Prop :=
  wide.filter (fun way => way.offset ≤ window.distance + window.size) =
    narrow.map (Progress.shift window.distance)

namespace Shows

variable {window : Window} {wide narrow : List Progress}

theorem of_behind
    (behind : ∀ way ∈ wide, window.distance + window.size < way.offset) :
    window.Shows wide [] := by
  rw [Shows, List.map_nil, List.filter_eq_nil_iff]
  intro way member
  have isBehind := behind way member
  simp only [decide_eq_true_eq]
  omega

theorem cons
    {progress : Progress}
    (bounded : progress.offset ≤ window.size)
    (shows : window.Shows wide narrow) :
    window.Shows (progress.shift window.distance :: wide)
      (progress :: narrow) := by
  have seen :
      (progress.shift window.distance).offset ≤
        window.distance + window.size := by
    simp only [Progress.shift]
    omega
  rw [Shows, List.filter_cons_of_pos (by simpa using seen), List.map_cons,
    shows]

theorem singleton
    {progress : Progress}
    (bounded : progress.offset ≤ window.size) :
    window.Shows [progress.shift window.distance] [progress] :=
  cons bounded rfl

theorem append
    {otherWide otherNarrow : List Progress}
    (shows : window.Shows wide narrow)
    (others : window.Shows otherWide otherNarrow) :
    window.Shows (wide ++ otherWide) (narrow ++ otherNarrow) := by
  rw [Shows, List.filter_append, List.map_append, shows, others]

theorem prefer
    (node : Node)
    (shows : window.Shows wide narrow) :
    window.Shows (prefer node wide) (LineSearch.prefer node narrow) := by
  unfold LineSearch.prefer
  split
  · rw [Shows, List.filter_reverse, List.map_reverse, shows]
  · exact shows

theorem closeGroup
    (index opened : Nat)
    (shows : window.Shows wide narrow) :
    window.Shows
      (wide.map (·.closeGroup index (opened + window.distance)))
      (narrow.map (·.closeGroup index opened)) := by
  have sameOffsets :
      (fun way : Progress =>
            decide (way.offset ≤ window.distance + window.size)) ∘
          (fun way : Progress =>
            way.closeGroup index (opened + window.distance)) =
        fun way : Progress =>
          decide (way.offset ≤ window.distance + window.size) :=
    rfl
  rw [Shows, List.filter_map, sameOffsets, shows, List.map_map,
    List.map_map]
  exact
    List.map_congr_left fun way _ =>
      (way.shift_closeGroup window.distance index opened).symm

/-- What follows from a way that ends behind the window ends behind it as well. -/
theorem flatMap
    {followWide followNarrow : Progress → List Progress}
    (shows : window.Shows wide narrow)
    (forward :
      ∀ way ∈ wide, ∀ later ∈ followWide way, way.offset ≤ later.offset)
    (ofEach :
      ∀ way ∈ narrow,
        window.Shows (followWide (way.shift window.distance))
          (followNarrow way)) :
    window.Shows (wide.flatMap followWide) (narrow.flatMap followNarrow) := by
  let seen (way : Progress) : Bool :=
    way.offset ≤ window.distance + window.size
  have nothing :
      ∀ way ∈ wide, seen way = false → (followWide way).filter seen = [] := by
    intro way member behind
    refine List.filter_eq_nil_iff.mpr fun later follows => ?_
    have notBefore := forward way member later follows
    simp only [seen, decide_eq_true_eq, decide_eq_false_iff_not] at behind ⊢
    omega
  calc (wide.flatMap followWide).filter seen
      = wide.flatMap fun way => (followWide way).filter seen :=
        List.filter_flatMap ..
    _ = (wide.filter seen).flatMap fun way => (followWide way).filter seen :=
        (flatMap_filter wide nothing).symm
    _ = narrow.flatMap fun way =>
          (followWide (way.shift window.distance)).filter seen := by
        rw [shows, List.flatMap_map]
    _ = narrow.flatMap fun way =>
          (followNarrow way).map (Progress.shift window.distance) :=
        List.flatMap_congr ofEach
    _ = (narrow.flatMap followNarrow).map
          (Progress.shift window.distance) :=
        (List.map_flatMap ..).symm

end Shows

end Window

namespace Node

section Embedded

variable {before chars after : Line} {start : Progress}

/-- A character of a line stands in the longer line as far behind as the line itself. -/
theorem getElem?_embedded
    {offset : Nat}
    (bounded : offset < chars.size) :
    (before ++ chars ++ after)[offset + before.size]? = chars[offset]? := by
  have inFront : offset + before.size < (before ++ chars).size := by
    rw [Array.size_append]
    omega
  rw [Array.getElem?_append_left inFront,
    Array.getElem?_append_right (Nat.le_add_left _ _), Nat.add_sub_cancel]

/-- So does a stretch of it. -/
theorem of_shift
    {span : Span}
    (bounded : span.stop ≤ chars.size) :
    (span.shift before.size).of (before ++ chars ++ after) =
      span.of chars := by
  have notInFront :
      before.extract (span.start + before.size) (span.stop + before.size) =
        #[] :=
    Array.extract_empty_of_size_le_start (Nat.le_add_left _ _)
  have notBehind :
      after.extract (span.start + before.size - (before.size + chars.size))
          (span.stop + before.size - (before.size + chars.size)) =
        #[] :=
    Array.extract_empty_of_stop_le_start (by omega)
  rw [Span.of, Span.shift, Array.extract_append, Array.extract_append,
    Array.size_append, notInFront, notBehind, Array.empty_append,
    Array.append_empty, Nat.add_sub_cancel, Nat.add_sub_cancel, Span.of]

/-- A progress inside the line is one inside the longer line. -/
theorem shift_inside
    (inside : start.Inside chars) :
    (start.shift before.size).Inside (before ++ chars ++ after) where
  offset_le := by
    have bounded := inside.offset_le
    simp only [Progress.shift, Array.size_append]
    omega
  captures index span held := by
    rw [Progress.shift, Captures.span?_shift, Option.map_eq_some_iff] at held
    obtain ⟨original, isHeld, rfl⟩ := held
    obtain ⟨ordered, bounded⟩ := inside.captures index original isHeld
    simp only [Span.shift, Array.size_append]
    omega

/-- Advancing is advancing in the longer line. -/
theorem advances_shift
    {way : Progress}
    (bounded : way.offset ≤ chars.size) :
    Unroll.advances (before ++ chars ++ after).size
        (start.shift before.size) (way.shift before.size) =
      Unroll.advances chars.size start way := by
  rw [Bool.eq_iff_iff, Unroll.advances_iff_lt bounded,
    Unroll.advances_iff_lt]
  · simp only [Progress.shift]
    omega
  · simp only [Progress.shift, Array.size_append]
    omega

/-- A way that only moves on to this offset shows as moving on to the same place. -/
private theorem shift_moveOn
    (distance offset : Nat) :
    { start.shift distance with offset := offset + distance } =
      Progress.shift distance { start with offset := offset } :=
  rfl

theorem shows_consume
    (test : Char → Bool)
    (inside : start.Inside chars) :
    Window.Shows ⟨before.size, chars.size⟩
      ((start.shift before.size).consume (before ++ chars ++ after) test)
      (start.consume chars test) := by
  rcases Nat.lt_or_eq_of_le inside.offset_le with isInFront | atEnd
  · have sameCharacter :
        (before ++ chars ++ after)[(start.shift before.size).offset]? =
          chars[start.offset]? :=
      getElem?_embedded isInFront
    have moved :
        (start.shift before.size).offset + 1 =
          start.offset + 1 + before.size :=
      Nat.add_right_comm ..
    rw [Progress.consume, Progress.consume, sameCharacter, moved,
      shift_moveOn]
    cases chars[start.offset]? with
    | none => rfl
    | some char =>
        dsimp only
        split
        · exact .singleton isInFront
        · rfl
  · have nothing : start.consume chars test = [] := by
      rw [Progress.consume, Array.getElem?_eq_none (Nat.le_of_eq atEnd.symm)]
    rw [nothing]
    refine .of_behind fun way member => ?_
    obtain ⟨_, _, _, rfl⟩ := Progress.mem_consume.mp member
    simp only [Progress.shift]
    omega

theorem shows_copy
    {index : Nat}
    {span : Span}
    (inside : start.Inside chars)
    (held : start.captures.span? index = some span) :
    Window.Shows ⟨before.size, chars.size⟩
      ((start.shift before.size).copy (before ++ chars ++ after)
        (span.shift before.size))
      (start.copy chars span) := by
  have moved :
      (start.shift before.size).offset + span.length =
        start.offset + span.length + before.size :=
    Nat.add_right_comm ..
  by_cases bounded : start.offset + span.length ≤ chars.size
  · let copied : Span := ⟨start.offset, start.offset + span.length⟩
    have copiedInside : copied.stop ≤ chars.size := bounded
    have sameText :
        (before ++ chars ++ after).extract
            (start.shift before.size).offset
            (start.offset + span.length + before.size) =
          chars.extract start.offset (start.offset + span.length) :=
      of_shift copiedInside
    simp only [Progress.copy, Span.length_shift, moved, sameText,
      of_shift (inside.captures index span held).2, shift_moveOn]
    split
    · exact .singleton bounded
    · rfl
  · have nothing : start.copy chars span = [] := by
      refine List.eq_nil_iff_forall_not_mem.mpr fun way member => ?_
      have wayInside :=
        inside_of_mem_possibilities inside
          (mem_backref.mpr ⟨span, held, member⟩)
      obtain ⟨_, _, rfl⟩ := Progress.mem_copy.mp member
      exact bounded wayInside.offset_le
    rw [nothing]
    refine .of_behind fun way member => ?_
    obtain ⟨_, _, rfl⟩ := Progress.mem_copy.mp member
    simp only [Span.length_shift, moved]
    omega

/-- What a repetition puts out from a progress does not lie in front of it. -/
theorem le_offset_of_mem_outputs
    {body : Node}
    {goesOn : Bool}
    {later : Progress}
    (inside : start.Inside chars)
    (member :
      later ∈
        Unroll.outputs chars.size (possibilities chars body)
          (start, goesOn)) :
    start.offset ≤ later.offset := by
  cases goesOn with
  | false =>
      rw [Unroll.outputs, List.mem_singleton] at member
      exact Nat.le_of_eq (congrArg Progress.offset member.symm)
  | true =>
      have ofWalk :
          later ∈ possibilities chars (.repetition body .zeroOrMore false)
            start := by
        rw [possibilities_zeroOrMore]
        exact member
      exact le_offset_of_mem_possibilities inside ofWalk

/-- What follows from a progress shows as what follows from it in the line alone. -/
theorem shows_further
    {body : Node}
    (ofBody :
      ∀ start : Progress, start.Inside chars →
        Window.Shows ⟨before.size, chars.size⟩
          (possibilities (before ++ chars ++ after) body
            (start.shift before.size))
          (possibilities chars body start))
    (start : Progress)
    (inside : start.Inside chars) :
    let whole := before ++ chars ++ after
    Window.Shows ⟨before.size, chars.size⟩
      ((Unroll.successors whole.size (possibilities whole body)
          (start.shift before.size)).flatMap
        (Unroll.outputs whole.size (possibilities whole body)))
      ((Unroll.successors chars.size (possibilities chars body)
          start).flatMap
        (Unroll.outputs chars.size (possibilities chars body))) := by
  intro whole
  rw [Unroll.successors, Unroll.successors, List.flatMap_map,
    List.flatMap_map]
  refine (ofBody start inside).flatMap ?_ ?_
  · intro way listed later follows
    exact
      le_offset_of_mem_outputs
        (inside_of_mem_possibilities (shift_inside inside) listed) follows
  · intro way listed
    have wayInside := inside_of_mem_possibilities inside listed
    rw [advances_shift wayInside.offset_le]
    cases advanced : Unroll.advances chars.size start way with
    | false => exact .singleton wayInside.offset_le
    | true =>
        rw [Unroll.outputs, Unroll.outputs, Unroll.walk_eq, Unroll.walk_eq]
        exact .cons wayInside.offset_le (shows_further ofBody way wayInside)
  termination_by chars.size - start.offset
  decreasing_by simpa [Unroll.advances] using advanced

theorem shows_sequence
    {items : List Node}
    (ofItems :
      ∀ item ∈ items, ∀ start : Progress, start.Inside chars →
        Window.Shows ⟨before.size, chars.size⟩
          (possibilities (before ++ chars ++ after) item
            (start.shift before.size))
          (possibilities chars item start))
    (inside : start.Inside chars) :
    Window.Shows ⟨before.size, chars.size⟩
      (sequence (before ++ chars ++ after) items (start.shift before.size))
      (sequence chars items start) := by
  induction items generalizing start with
  | nil =>
      rw [sequence, sequence]
      exact .singleton inside.offset_le
  | cons item rest inductionHypothesis =>
      obtain ⟨ofItem, ofRest⟩ := List.forall_mem_cons.mp ofItems
      rw [sequence, sequence]
      refine ((ofItem start inside).prefer item).flatMap ?_ ?_
      · intro way listed later follows
        have wayInside :=
          inside_of_mem_possibilities (shift_inside inside)
            (mem_prefer.mp listed)
        rw [← possibilities] at follows
        exact le_offset_of_mem_possibilities wayInside follows
      · intro way listed
        exact
          inductionHypothesis ofRest
            (inside_of_mem_possibilities inside (mem_prefer.mp listed))

theorem shows_choices
    {branches : List Node}
    (ofBranches :
      ∀ branch ∈ branches,
        Window.Shows ⟨before.size, chars.size⟩
          (possibilities (before ++ chars ++ after) branch
            (start.shift before.size))
          (possibilities chars branch start)) :
    Window.Shows ⟨before.size, chars.size⟩
      (choices (before ++ chars ++ after) branches
        (start.shift before.size))
      (choices chars branches start) := by
  induction branches with
  | nil =>
      rw [choices, choices]
      rfl
  | cons branch rest inductionHypothesis =>
      obtain ⟨ofBranch, ofRest⟩ := List.forall_mem_cons.mp ofBranches
      rw [choices, choices]
      exact (ofBranch.prefer branch).append (inductionHypothesis ofRest)

/-- Without anchors, what ends in the window is what the text there is matched by alone. -/
theorem shows_possibilities
    (node : Node)
    (unanchored : node.anchorFree = true)
    (inside : start.Inside chars) :
    Window.Shows ⟨before.size, chars.size⟩
      (possibilities (before ++ chars ++ after) node
        (start.shift before.size))
      (possibilities chars node start) := by
  induction node using treeInduction generalizing start with
  | single node test tested =>
      rw [possibilities_of_test? tested, possibilities_of_test? tested]
      exact shows_consume test inside
  | anchor place => cases (all_iff.mp unanchored).1
  | concat items inductionHypothesis =>
      rw [possibilities, possibilities]
      refine shows_sequence (fun item among start inside => ?_) inside
      exact inductionHypothesis item among ((all_iff.mp unanchored).2 _ among) inside
  | alternation branches inductionHypothesis =>
      rw [possibilities, possibilities]
      refine shows_choices fun branch among => ?_
      exact
        inductionHypothesis branch among ((all_iff.mp unanchored).2 _ among) inside
  | repetition body kind greedy inductionHypothesis =>
      have ofBody (start : Progress) (inside : start.Inside chars) :=
        inductionHypothesis
          ((all_iff.mp unanchored).2 body List.mem_cons_self) inside
      have further := shows_further ofBody start inside
      cases kind with
      | zeroOrOne =>
          rw [possibilities, possibilities]
          exact .cons inside.offset_le (ofBody start inside)
      | zeroOrMore =>
          rw [possibilities_zeroOrMore, possibilities_zeroOrMore,
            Unroll.walk_eq, Unroll.walk_eq]
          exact .cons inside.offset_le further
      | oneOrMore =>
          rw [possibilities_oneOrMore, possibilities_oneOrMore]
          exact further
  | group index body inductionHypothesis =>
      rw [possibilities, possibilities]
      have ofBody :=
        inductionHypothesis
          ((all_iff.mp unanchored).2 body List.mem_cons_self) inside
      exact (ofBody.prefer body).closeGroup index start.offset
  | backref index =>
      rw [possibilities, possibilities]
      have held :
          (start.shift before.size).captures.span? index =
            (start.captures.span? index).map (Span.shift before.size) :=
        Captures.span?_shift ..
      rw [held]
      cases isHeld : start.captures.span? index with
      | none => rfl
      | some span => exact shows_copy inside isHeld

end Embedded

end Node

namespace Pattern

open Node

theorem ofText_append (left right : String) :
    Line.ofText (left ++ right) = Line.ofText left ++ Line.ofText right := by
  simp [Line.ofText]

/-- A text that matches still matches with other text around it. -/
theorem isMatch_of_part
    {pattern : Pattern}
    (unanchored : pattern.root.anchorFree = true)
    (everywhere : pattern.anchoredStart = false)
    (before after : String)
    {text : String}
    (isMatch : pattern.isMatch text = true) :
    pattern.isMatch (before ++ text ++ after) = true := by
  let distance := (Line.ofText before).size
  obtain ⟨offset, final, tried, derived⟩ := isMatch_iff_matches.mp isMatch
  have inside : (pattern.begin offset).Inside (Line.ofText text) :=
    pattern.begin_inside tried
  have begins :
      (pattern.begin offset).shift distance =
        pattern.begin (offset + distance) := by
    rw [begin, Progress.shift, Captures.shift_unset, begin]
  have movedInside :
      (pattern.begin (offset + distance)).Inside
        (Line.ofText before ++ Line.ofText text ++ Line.ofText after) :=
    begins ▸ shift_inside inside
  have listed :
      final.shift distance ∈
        (possibilities (Line.ofText text) pattern.root
          (pattern.begin offset)).map (Progress.shift distance) :=
    List.mem_map_of_mem (derived.mem_possibilities inside)
  have shown :
      Window.Shows ⟨distance, (Line.ofText text).size⟩
        (possibilities
          (Line.ofText before ++ Line.ofText text ++ Line.ofText after)
          pattern.root ((pattern.begin offset).shift distance))
        (possibilities (Line.ofText text) pattern.root
          (pattern.begin offset)) :=
    shows_possibilities pattern.root unanchored inside
  rw [← shown, begins, List.mem_filter] at listed
  rw [isMatch_iff_matches]
  refine ⟨offset + distance, final.shift distance, ?_, ?_⟩
  · rw [lastStart, everywhere, ofText_append, ofText_append]
    exact movedInside.offset_le
  · rw [ofText_append, ofText_append]
    exact matches_of_mem_possibilities pattern.root movedInside listed.1

/--
Matching without anchors depends on the text that is consumed and on nothing
else.  From any progress inside a line, the ways of a tree in a longer line
around it that end where the line ends or before are the ways in the line alone,
entry for entry and in the same order, moved by what stands in front.  So where
every offset is tried, a text that matches still matches with other text around
it.
-/
theorem matching_sees_only_the_text_consumed
    {node : Node}
    (unanchored : node.anchorFree = true) :
    (∀ (before chars after : Line) (start : Progress),
      start.Inside chars →
        (possibilities (before ++ chars ++ after) node
              (start.shift before.size)).filter
            (fun way => way.offset ≤ before.size + chars.size) =
          (possibilities chars node start).map
            (Progress.shift before.size)) ∧
      ∀ (pattern : Pattern) (before text after : String),
        pattern.root = node →
          pattern.anchoredStart = false →
            pattern.isMatch text = true →
              pattern.isMatch (before ++ text ++ after) = true := by
  constructor
  · intro before chars after start inside
    exact shows_possibilities node unanchored inside
  · rintro pattern before text after rfl everywhere isMatch
    exact isMatch_of_part unanchored everywhere before after isMatch

/-- Behind the text more can be repeated, in front of what is repeated in the text alone. -/
theorem matching_sees_only_the_text_consumed_twice :
    let letters : Node := .repetition (.literal 'a') .zeroOrMore true
    let doubled : Node := .concat [.group 1 letters, .backref 1]
    let pattern : Pattern := ⟨doubled, 1, false, "(a*)\\1"⟩
    let start : Progress := ⟨0, #[none, none]⟩
    doubled.anchorFree = true ∧
      start.Inside #['a', 'a'] ∧
      possibilities #['a', 'a'] doubled start =
        [⟨2, #[none, some ⟨0, 1⟩]⟩] ∧
      possibilities #['b', 'a', 'a', 'a', 'a'] doubled (start.shift 1) =
        [⟨5, #[none, some ⟨1, 3⟩]⟩, ⟨3, #[none, some ⟨1, 2⟩]⟩] ∧
      (possibilities (#['b'] ++ #['a', 'a'] ++ #['a', 'a']) doubled
            (start.shift 1)).filter
          (fun way => way.offset ≤ 3) =
        (possibilities #['a', 'a'] doubled start).map (Progress.shift 1) ∧
      pattern.isMatch "aa" = true ∧
      pattern.isMatch ("b" ++ "aa" ++ "c") = true := by
  intro letters doubled pattern start
  have unanchored : doubled.anchorFree = true := by
    decide
  have inside : start.Inside #['a', 'a'] :=
    ⟨Nat.zero_le _, Captures.Inside.unset 1 2⟩
  have alone :
      possibilities #['a', 'a'] doubled start =
        [⟨2, #[none, some ⟨0, 1⟩]⟩] := by
    cbv
  have isMatch : pattern.isMatch "aa" = true := by
    cbv
  obtain ⟨shows, embeds⟩ := matching_sees_only_the_text_consumed unanchored
  exact
    ⟨unanchored, inside, alone, by cbv,
      shows #['b'] #['a', 'a'] #['a', 'a'] start inside, isMatch,
      embeds pattern "b" "aa" "c" rfl rfl isMatch⟩

end Pattern

end LineSearch
