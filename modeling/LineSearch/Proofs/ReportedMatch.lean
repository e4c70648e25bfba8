import LineSearch.Proofs.CapturedSpans
import LineSearch.Proofs.FirstMatch
import Mathlib.Data.List.Basic

namespace LineSearch

/-!
# What a match reports

A compiled pattern has a slot for each of its groups and one more, which no group
writes.  So the outcome for a matching line has that many texts, the first of them
empty, and each is a piece of the text between the reported offsets.
-/

/-- A slot that is there needs no new ones. -/
theorem Captures.grow_of_lt
    {captures : Captures}
    {index : Nat}
    (present : index < captures.size) :
    captures.grow index = captures := by
  have enough : index + 1 - captures.size = 0 :=
    Nat.sub_eq_zero_of_le present
  simp [grow, Array.rightpad, enough]

/-- A stretch among the slots is held by one of them. -/
theorem Captures.exists_span?_eq_of_mem
    {captures : Captures}
    {span : Span}
    (isSlot : some span ∈ captures.toList) :
    ∃ index, captures.span? index = some span := by
  obtain ⟨index, present, held⟩ :=
    Array.mem_iff_getElem.mp (Array.mem_toList_iff.mp isSlot)
  refine ⟨index, ?_⟩
  rw [span?, Array.getElem?_eq_getElem present, held]
  rfl

theorem Line.size_ofText (text : String) :
    (Line.ofText text).size = text.length := by
  rw [Line.ofText, List.size_toArray, String.length_toList]

/-- What is reported for a match from this offset on that ends like this. -/
def Outcome.ofWay (chars : Line) (start : Nat) (way : Progress) : Outcome where
  matched := true
  start := start
  stop := way.offset
  captures := Pattern.capturedTexts chars way.captures

/-- Two ways are reported alike when they end together and have captured the same texts. -/
theorem Outcome.ofWay_inj
    {chars : Line}
    {start : Nat}
    {way other : Progress} :
    Outcome.ofWay chars start way = Outcome.ofWay chars start other ↔
      way.offset = other.offset ∧
        Pattern.capturedTexts chars way.captures =
          Pattern.capturedTexts chars other.captures := by
  simp [Outcome.ofWay]

namespace Span

theorem text_of_empty
    (offset : Nat)
    (chars : Line) :
    Span.text ⟨offset, offset⟩ chars = "" := by
  simp [Span.text, Span.of]

/-- The text of a stretch stands in the text of any stretch around it. -/
theorem exists_text_eq
    {outer inner : Span}
    (chars : Line)
    (notBefore : outer.start ≤ inner.start)
    (ordered : inner.start ≤ inner.stop)
    (notBehind : inner.stop ≤ outer.stop) :
    ∃ before behind,
      outer.text chars = before ++ inner.text chars ++ behind := by
  have inPieces :
      outer.of chars =
        Span.of ⟨outer.start, inner.start⟩ chars ++ inner.of chars ++
          Span.of ⟨inner.stop, outer.stop⟩ chars := by
    simp only [Span.of]
    rw [Array.extract_append_extract, Nat.min_eq_left notBefore,
      Nat.max_eq_right ordered, Array.extract_append_extract,
      Nat.min_eq_left (Nat.le_trans notBefore ordered),
      Nat.max_eq_right notBehind]
  refine
    ⟨Span.text ⟨outer.start, inner.start⟩ chars,
      Span.text ⟨inner.stop, outer.stop⟩ chars, ?_⟩
  rw [Span.text, inPieces]
  simp only [Span.text, Array.toList_append, String.ofList_append]

end Span

namespace Pattern

open Node

theorem length_capturedTexts
    (chars : Line)
    (captures : Captures) :
    (capturedTexts chars captures).length = captures.size := by
  simp [capturedTexts]

/-- A slot that is there and holds nothing is reported as the empty text. -/
theorem getElem?_capturedTexts_of_unset
    (chars : Line)
    {captures : Captures}
    {index : Nat}
    (present : index < captures.size)
    (unset : captures.span? index = none) :
    (capturedTexts chars captures)[index]? = some "" := by
  have empty : captures[index] = none := by
    simpa [Captures.span?, Array.getElem?_eq_getElem present] using unset
  rw [getElem?_capturedTexts, Array.getElem?_eq_getElem present, empty]
  rfl

/-- A text is reported for a slot that holds its stretch, or for one that holds nothing. -/
theorem of_mem_capturedTexts
    {chars : Line}
    {captures : Captures}
    {captured : String}
    (member : captured ∈ capturedTexts chars captures) :
    captured = "" ∨
      ∃ index span,
        captures.span? index = some span ∧ captured = span.text chars := by
  obtain ⟨slot, isSlot, rfl⟩ := List.mem_map.mp member
  cases slot with
  | none => exact Or.inl rfl
  | some span =>
      obtain ⟨index, held⟩ := Captures.exists_span?_eq_of_mem isSlot
      exact Or.inr ⟨index, span, held, rfl⟩

/-- Each text reported for an attempt is that of a stretch the attempt went over. -/
theorem exists_span_of_mem_capturedTexts
    {chars : Line}
    {origin : Nat}
    {progress : Progress}
    (since : progress.Since chars origin)
    {captured : String}
    (member : captured ∈ capturedTexts chars progress.captures) :
    ∃ span : Span,
      origin ≤ span.start ∧
        span.start ≤ span.stop ∧
        span.stop ≤ progress.offset ∧
        captured = span.text chars := by
  rcases of_mem_capturedTexts member with rfl | ⟨index, span, held, same⟩
  · -- A slot that holds nothing is reported like an empty stretch.
    exact
      ⟨⟨origin, origin⟩, Nat.le_refl _, Nat.le_refl _, since.begun,
        (Span.text_of_empty _ _).symm⟩
  · obtain ⟨notBefore, ordered, notBehind⟩ := since.captured index span held
    exact ⟨span, notBefore, ordered, notBehind, same⟩

/-- Every group of a compiled pattern has a slot of its own, and none has the first one. -/
theorem slots_of_compile
    {text : String}
    {pattern : Pattern}
    (compiled : compile text = .ok pattern) :
    (∀ index ∈ pattern.root.groupIndices, index < pattern.groupCount + 1) ∧
      0 ∉ pattern.root.groupIndices := by
  rw [groupIndices_of_compile compiled]
  constructor
  · intro index numbered
    obtain ⟨_, bounded⟩ := List.mem_range'_1.mp numbered
    exact Nat.add_comm 1 _ ▸ bounded
  · intro numbered
    obtain ⟨positive, _⟩ := List.mem_range'_1.mp numbered
    exact Nat.not_succ_le_zero 0 positive

/-- Where nothing is found, the outcome reports nothing. -/
theorem matchLine_of_find?_eq_none
    {pattern : Pattern}
    {text : String}
    (nothing : pattern.find? (Line.ofText text) = none) :
    pattern.matchLine text = .unmatched := by
  simp [matchLine, nothing]

/-- An attempt begins at each offset that is tried. -/
theorem begin_since
    (pattern : Pattern)
    {chars : Line}
    {offset : Nat}
    (tried : offset ≤ pattern.lastStart chars) :
    (pattern.begin offset).Since chars offset :=
  Progress.Since.begin (pattern.begin_inside tried).offset_le pattern.groupCount

/--
In the course of an attempt all lists of ways are asked for with one slot for each
group and one more, and so is every way that is listed.
-/
theorem size_captures_of_calls
    {text : String}
    {pattern : Pattern}
    (compiled : compile text = .ok pattern)
    {chars : Line}
    {offset : Nat}
    (tried : offset ≤ pattern.lastStart chars)
    {node : Node}
    {start : Progress}
    (calls : Calls chars pattern.root (pattern.begin offset) node start) :
    start.captures.size = pattern.groupCount + 1 ∧
      ∀ way ∈ node.possibilities chars start,
        way.captures.size = pattern.groupCount + 1 := by
  obtain ⟨slots, _⟩ := slots_of_compile compiled
  have begins := pattern.begin_since tried
  have atBegin :
      (pattern.begin offset).captures.size = pattern.groupCount + 1 :=
    Captures.size_unset pattern.groupCount
  have asked : start.captures.size = pattern.groupCount + 1 :=
    (calls.size_captures begins (atBegin.symm ▸ slots)).trans atBegin
  refine ⟨asked, fun way listed => ?_⟩
  have derived :=
    matches_of_mem_possibilities node (calls.since begins).inside listed
  have nodeSlots (index : Nat) (own : index ∈ node.groupIndices) :
      index < start.captures.size :=
    asked.symm ▸ slots index (calls.groupIndices_subset own)
  exact (derived.size_captures nodeSlots).trans asked

/--
A compiled pattern and any line.  If the line matches, the reported offsets are in
order and in the line, there is one text for each group behind one more that is
empty, and each text is that of a stretch between the offsets, a piece of the text
that is matched.  If it does not match, nothing is reported.

Whatever is asked for and listed on the way has the same number of slots, so a
group that is closed finds its slot and none is added.
-/
theorem outcomes_are_well_formed
    {text : String}
    {pattern : Pattern}
    (compiled : compile text = .ok pattern)
    (line : String) :
    let chars := Line.ofText line
    let outcome := pattern.matchLine line
    (outcome.matched = true →
        outcome.start ≤ outcome.stop ∧
          outcome.stop ≤ line.length ∧
          outcome.captures.length = pattern.groupCount + 1 ∧
          outcome.captures[0]? = some "" ∧
          ∀ captured ∈ outcome.captures,
            ∃ span : Span,
              outcome.start ≤ span.start ∧
                span.start ≤ span.stop ∧
                span.stop ≤ outcome.stop ∧
                captured = span.text chars ∧
                ∃ before behind,
                  Span.text ⟨outcome.start, outcome.stop⟩ chars =
                    before ++ captured ++ behind) ∧
      (outcome.matched = false →
        outcome.start = 0 ∧ outcome.stop = 0 ∧ outcome.captures = []) ∧
      ∀ offset node start,
        offset ≤ pattern.lastStart chars →
        Calls chars pattern.root (pattern.begin offset) node start →
          start.captures.size = pattern.groupCount + 1 ∧
            (∀ way ∈ node.possibilities chars start,
              way.captures.size = pattern.groupCount + 1) ∧
            ∀ index body,
              node = .group index body →
                ∀ way ∈ body.possibilities chars start,
                  way.captures.grow index = way.captures := by
  intro chars outcome
  refine ⟨?_, ?_, ?_⟩
  · intro matched
    obtain ⟨found, isFound⟩ :=
      isMatch_iff_find?.mp ((pattern.matched_eq_isMatch line).symm.trans matched)
    have reported : outcome = _ := matchLine_of_find? isFound
    obtain ⟨tried, preferred, -⟩ := find?_eq_some_iff.mp isFound
    have derived := matches_of_find? isFound
    have since := derived.since (pattern.begin_since tried)
    obtain ⟨slots, noZero⟩ := slots_of_compile compiled
    have size : found.final.captures.size = pattern.groupCount + 1 :=
      (size_captures_of_calls compiled tried .self).2 _
        (mem_of_matchAt? preferred)
    have first : found.final.captures.span? 0 = none :=
      (derived.span?_eq noZero).trans
        (Captures.span?_unset pattern.groupCount 0)
    rw [reported]
    refine
      ⟨since.begun, Line.size_ofText line ▸ since.offset_le,
        (length_capturedTexts _ _).trans size,
        getElem?_capturedTexts_of_unset _ (size ▸ Nat.succ_pos _) first, ?_⟩
    intro captured isCaptured
    obtain ⟨span, notBefore, ordered, notBehind, same⟩ :=
      exists_span_of_mem_capturedTexts since isCaptured
    exact
      ⟨span, notBefore, ordered, notBehind, same,
        same ▸ Span.exists_text_eq chars notBefore ordered notBehind⟩
  · intro unmatched
    have noMatch : pattern.isMatch line = false :=
      (pattern.matched_eq_isMatch line).symm.trans unmatched
    have nothing : pattern.find? chars = none := by
      rwa [isMatch, Option.isSome_eq_false_iff, Option.isNone_iff_eq_none]
        at noMatch
    have reported : outcome = _ := matchLine_of_find?_eq_none nothing
    rw [reported]
    exact ⟨rfl, rfl, rfl⟩
  · intro offset node start tried calls
    obtain ⟨asked, listed⟩ := size_captures_of_calls compiled tried calls
    refine ⟨asked, listed, ?_⟩
    rintro index body rfl way ofBody
    obtain ⟨slots, _⟩ := slots_of_compile compiled
    have own : index < pattern.groupCount + 1 :=
      slots index (calls.groupIndices_subset List.mem_cons_self)
    have ofWay : way.captures.size = pattern.groupCount + 1 :=
      (size_captures_of_calls compiled tried (calls.trans (.body .self))).2
        way ofBody
    exact Captures.grow_of_lt (ofWay.symm ▸ own)

/-- What the inner group captured in the first occurrence is left over behind the second one. -/
theorem outcomes_are_well_formed_with_a_capture_left_over :
    let pattern : Pattern :=
      { root :=
          .repetition
            (.group 1 (.alternation [.group 2 (.literal 'a'), .literal 'b']))
            .oneOrMore true
        groupCount := 2
        anchoredStart := false
        source := "((a)|b)+" }
    compile "((a)|b)+" = .ok pattern ∧
      pattern.matchLine "xab" =
        { matched := true, start := 1, stop := 3, captures := ["", "b", "a"] } ∧
      ∀ captured ∈ ["", "b", "a"],
        ∃ span : Span,
          1 ≤ span.start ∧
            span.start ≤ span.stop ∧
            span.stop ≤ 3 ∧
            captured = span.text (Line.ofText "xab") := by
  intro pattern
  have spells :
      Spelling.Alternation.Spells
        (.of
          (.cons
            (.group
              (.of
                (.cons
                  (.group (.of (.cons (.plain 'a') none .nil) .nil)) none .nil)
                (.cons (.cons (.plain 'b') none .nil) .nil)))
            (some .oneOrMore) .nil)
          .nil)
        "((a)|b)+" := by
    decide
  have compiled : compile "((a)|b)+" = .ok pattern := compile_of_spells spells
  have reported :
      pattern.matchLine "xab" =
        { matched := true, start := 1, stop := 3, captures := ["", "b", "a"] } := by
    cbv
  obtain ⟨ofMatch, -⟩ := outcomes_are_well_formed compiled "xab"
  rw [reported] at ofMatch
  obtain ⟨-, -, -, -, captured⟩ := ofMatch rfl
  refine ⟨compiled, reported, fun text member => ?_⟩
  obtain ⟨span, notBefore, ordered, notBehind, same, -⟩ := captured text member
  exact ⟨span, notBefore, ordered, notBehind, same⟩

end Pattern

end LineSearch
