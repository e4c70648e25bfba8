import LineSearch.Proofs.BlamedCharacter
import LineSearch.Proofs.ReaderCalls
import Mathlib.Logic.Relation

namespace LineSearch

/-!
# Readers only advance

Compiling a text begins with one call, and every other one is made by a call that
is made.  What is known of the cursor at one call, that it stands in the text with
nothing lost behind it, is known at the calls it makes; and from there on a reader
that succeeds has gone further, up to where its construct must stop.
-/

namespace Cursor

/-- The cursor stands in the text or at its end, with the rest of the text left. -/
structure Inside (text : String) (cursor : Cursor) : Prop where
  position_le : cursor.position ≤ text.length
  rest_eq : cursor.rest = text.toList.drop cursor.position

namespace Inside

variable {text : String} {cursor : Cursor}

theorem of_reached
    {before : List Char}
    (reached : Reached text before cursor) :
    cursor.Inside text where
  position_le := by
    rw [reached.place, ← String.length_toList, reached.shape,
      List.length_append]
    exact Nat.le_add_right _ _
  rest_eq := by
    rw [reached.place, reached.shape, List.drop_left]

/-- The characters in front of the cursor and those left are all there are. -/
theorem position_add
    (inside : cursor.Inside text) :
    cursor.position + cursor.rest.length = text.length := by
  have bounded := inside.position_le
  rw [inside.rest_eq, List.length_drop, String.length_toList]
  omega

theorem skip
    (inside : cursor.Inside text)
    {count : Nat}
    (left : count ≤ cursor.rest.length) :
    (cursor.skip count).Inside text where
  position_le := by
    rw [← inside.position_add]
    exact Nat.add_le_add_left left _
  rest_eq := by
    simp only [Cursor.skip, inside.rest_eq, List.drop_drop]

end Inside

end Cursor

namespace ReaderCall

open Pattern Spelling

/-- What is known of the characters under the cursor where a reader is called. -/
def Proper : ReaderCall → Prop
  | .branches start => Stops start.rest
  | .quantified char _ _ _ | .atom char _ _ _ => ¬ (char = '|' ∨ char = ')')
  | .alternation _ | .concatenation _ | .items _ | .group _ | .set _
  | .escape _ => True

/-- How a reader leaves the cursor: not further back, and where its construct must stop. -/
def Leaves : ReaderCall → Cursor → Prop
  | .alternation start, next | .branches start, next =>
      start.position ≤ next.position ∧ Ends next.rest
  | .concatenation start, next | .items start, next =>
      start.position ≤ next.position ∧ Stops next.rest
  | .quantified _ _ position _, next | .atom _ _ position _, next =>
      position < next.position
  | .group start, next | .set start, next | .escape start, next =>
      start.position < next.position

/-- A reader that succeeds has read the text between two cursors, and leaves the second one. -/
theorem between_of_answer
    {call : ReaderCall}
    (proper : call.Proper)
    {value : call.Result}
    {next : Cursor}
    (reads : call.answer = .ok (value, next)) :
    ∃ text opened,
      Between call.start text opened next ∧ call.Leaves next := by
  cases call with
  | alternation start =>
      obtain ⟨spelling, -, ends, between, -⟩ := parseAlternation_spelt _ reads
      exact ⟨_, _, between, between.position_le, ends⟩
  | branches start =>
      obtain ⟨spelling, -, ends, between, -⟩ :=
        parseBranches_spelt _ proper reads
      exact ⟨_, _, between, between.position_le, ends⟩
  | concatenation start =>
      rw [answer, answer_parseConcatenation, bind_eq_ok_iff] at reads
      obtain ⟨⟨items, last⟩, readsItems, whole⟩ := reads
      cases whole
      obtain ⟨spelling, -, stops, between, -⟩ := parseItems_spelt _ readsItems
      exact ⟨_, _, between, between.position_le, stops⟩
  | items start =>
      obtain ⟨spelling, -, stops, between, -⟩ := parseItems_spelt _ reads
      exact ⟨_, _, between, between.position_le, stops⟩
  | quantified char rest position groups =>
      obtain ⟨atom, kind?, -, -, shorter, between, -⟩ :=
        parseQuantified_spelt char proper rest position groups reads
      exact ⟨_, _, between, between.position_lt (Nat.lt_succ_of_le shorter)⟩
  | atom char rest position groups =>
      obtain ⟨atom, -, between, shorter, -⟩ :=
        parseAtom_spelt char proper rest position groups reads
      exact ⟨_, _, between, between.position_lt (Nat.lt_succ_of_le shorter)⟩
  | group start =>
      rw [answer, answer_parseGroup, bind_eq_ok_iff] at reads
      obtain ⟨⟨body?, middle⟩, readsBody, afterBody⟩ := reads
      obtain ⟨body, -, -, between, -⟩ := parseAlternation_spelt _ readsBody
      by_cases closes : middle.rest.head? = some ')'
      · simp only [if_pos closes] at afterBody
        cases afterBody
        have whole := (between.trans (.skip closes)).ofOpenGroup
        refine ⟨_, _, whole, ?_⟩
        rw [Leaves, whole.position, List.length_append]
        exact Nat.lt_add_of_pos_right (Nat.succ_pos _)
      · simp only [if_neg closes] at afterBody
        cases afterBody
  | set start =>
      obtain ⟨negated, members, -, between, -⟩ := parseSet_spelt reads
      refine ⟨_, _, between, ?_⟩
      rw [Leaves, between.position, List.length_append]
      exact Nat.lt_add_of_pos_right (Nat.succ_pos _)
  | escape start =>
      rcases start with ⟨_ | ⟨char, rest⟩, position, groups⟩
      · cases reads
      · cases reads
        exact ⟨_, _, Between.char _ _ _ _, Nat.lt_succ_self _⟩

/-- What is known of a call that is made while this text is compiled. -/
structure Sound (text : String) (call : ReaderCall) : Prop where
  reached : ∃ before, Reached text before call.start
  proper : call.Proper

namespace Sound

variable {text : String}

theorem inside
    {call : ReaderCall}
    (sound : call.Sound text) :
    call.start.Inside text := by
  obtain ⟨before, reached⟩ := sound.reached
  exact .of_reached reached

theorem reached_next
    {call : ReaderCall}
    (sound : call.Sound text)
    {value : call.Result}
    {next : Cursor}
    (reads : call.answer = .ok (value, next)) :
    (∃ before, Reached text before next) ∧ call.Leaves next := by
  obtain ⟨before, reached⟩ := sound.reached
  obtain ⟨between, opened, here, leaves⟩ := between_of_answer sound.proper reads
  exact ⟨⟨_, reached.onward here⟩, leaves⟩

/-- What is known of a call is known of the calls it makes. -/
theorem of_asks
    {outer inner : ReaderCall}
    (sound : outer.Sound text)
    (asks : outer.Asks inner) :
    inner.Sound text := by
  obtain ⟨⟨before, reached⟩, proper⟩ := sound
  cases asks with
  | firstBranch | items => exact ⟨⟨before, reached⟩, trivial⟩
  | @furtherBranches start next first reads bar =>
      have ofFirst : Sound text (.concatenation start) :=
        ⟨⟨before, reached⟩, trivial⟩
      obtain ⟨reachedNext, -, stops⟩ := ofFirst.reached_next reads
      exact ⟨reachedNext, stops⟩
  | branch => exact ⟨⟨_, reached.char⟩, trivial⟩
  | @laterBranches rest position groups branch next reads =>
      have ofBranch :
          Sound text (.concatenation ⟨rest, position + 1, groups⟩) :=
        ⟨⟨_, reached.char⟩, trivial⟩
      obtain ⟨reachedNext, -, stops⟩ := ofBranch.reached_next reads
      exact ⟨reachedNext, stops⟩
  | item goesOn => exact ⟨⟨before, reached⟩, goesOn⟩
  | @laterItems char rest position groups item next goesOn reads =>
      have ofItem : Sound text (.quantified char rest position groups) :=
        ⟨⟨before, reached⟩, goesOn⟩
      exact ⟨(ofItem.reached_next reads).1, trivial⟩
  | atom => exact ⟨⟨before, reached⟩, proper⟩
  | group | set | escape => exact ⟨⟨_, reached.char⟩, trivial⟩
  | body => exact ⟨⟨before, reached.openGroup⟩, trivial⟩

end Sound

/-- This call is made while the text is compiled. -/
def CalledFor (text : String) (call : ReaderCall) : Prop :=
  Relation.ReflTransGen Asks (.alternation (.ofText text)) call

theorem CalledFor.sound
    {text : String}
    {call : ReaderCall}
    (called : CalledFor text call) :
    call.Sound text := by
  induction called with
  | refl => exact ⟨⟨[], Reached.ofText text⟩, trivial⟩
  | tail _ asks inductionHypothesis => exact inductionHypothesis.of_asks asks

/-- A set reaches from behind its caret to the first closing bracket, or to the end of the text. -/
theorem Sound.members_inside
    {text : String}
    {start : Cursor}
    (sound : Sound text (.set start)) :
    let opened :=
      if start.rest.head? = some '^' then start.skip 1 else start
    opened.Inside text ∧
      opened.position + (opened.rest.takeWhile (· != ']')).length ≤
        text.length := by
  intro opened
  have bracket : start.Inside text := sound.inside
  have inside : opened.Inside text := by
    unfold opened
    split
    · next negated =>
        refine bracket.skip (List.length_pos_iff.mpr fun nothing => ?_)
        rw [nothing] at negated
        cases negated
    · exact bracket
  refine ⟨inside, ?_⟩
  rw [← inside.position_add]
  exact Nat.add_le_add_left (List.takeWhile_sublist _).length_le _

/--
Compiling any text.  Wherever a reader is called, the cursor stands in the text or
at its end; where the reader succeeds, so does the cursor it stops at, no further
back than before and further on for an item or an atom, and a concatenation and
an alternation have stopped where they must.  So what a set is cut out of, the set
itself and what is left behind the whole alternation lie in the text.

The answers of a reader depend on those of the calls it makes only, and each of
these calls is one with fewer characters left, or with as many and for a smaller
construct.  So no chain of calls goes on for ever, and the equations of the
readers have exactly one solution, whatever is to be read.
-/
theorem readers_only_advance (text : String) :
    (∀ call,
      CalledFor text call →
        call.start.Inside text ∧
          ∀ value next,
            call.answer = .ok (value, next) →
              next.Inside text ∧ call.Leaves next) ∧
      (∀ start,
        CalledFor text (.set start) →
          let opened :=
            if start.rest.head? = some '^' then start.skip 1 else start
          opened.Inside text ∧
            opened.position + (opened.rest.takeWhile (· != ']')).length ≤
              text.length) ∧
      (∀ root? next,
        Pattern.answer (parseAlternation (.ofText text)) =
            .ok (root?, next) →
          next.Inside text) ∧
      (∀ (call : ReaderCall) (ask : Answers),
        (∀ inner, call.Asks inner → ask inner = inner.answer) →
          answerFrom ask call = call.answer) ∧
      (∀ outer inner : ReaderCall,
        outer.Asks inner →
          inner.start.rest.length < outer.start.rest.length ∨
            inner.start.rest.length = outer.start.rest.length ∧
              inner.rank < outer.rank) ∧
      (WellFounded fun inner outer : ReaderCall => outer.Asks inner) ∧
      ∀ solution : Answers,
        (∀ call, solution call = answerFrom solution call) ↔
          solution = answer := by
  have outcome
      (call : ReaderCall)
      (called : CalledFor text call)
      (value : call.Result)
      (next : Cursor)
      (reads : call.answer = .ok (value, next)) :
      next.Inside text ∧ call.Leaves next := by
    obtain ⟨⟨before, reached⟩, leaves⟩ := called.sound.reached_next reads
    exact ⟨.of_reached reached, leaves⟩
  refine
    ⟨fun call called => ⟨called.sound.inside, outcome call called⟩,
      fun start called => called.sound.members_inside,
      fun root? next reads => ?_, fun call ask agrees => ?_,
      fun _ _ asks => asks.descends, asks_wellFounded, fun solution => ?_⟩
  · exact (outcome _ .refl root? next reads).1
  · rw [answerFrom_eq_of_agrees call agrees, ← answer_eq_answerFrom]
  · constructor
    · intro solves
      exact funext fun call => eq_answer_of_solves solves call
    · rintro rfl
      exact answer_eq_answerFrom

/-- Behind a group, a set is left open whose caret is the last character. -/
theorem readers_only_advance_to_the_end_of_an_open_set :
    let text := "(a)[^"
    let item : ReaderCall := .quantified '(' ['a', ')', '[', '^'] 0 0
    let behind : Cursor := ⟨['[', '^'], 3, 1⟩
    let bracket : Cursor := ⟨['^'], 4, 1⟩
    CalledFor text item ∧
      item.answer = .ok (.group 1 (.literal 'a'), behind) ∧
      behind.Inside text ∧
      item.Leaves behind ∧
      CalledFor text (.set bracket) ∧
      (⟨[], 5, 1⟩ : Cursor).Inside text ∧
      5 + 0 ≤ text.length := by
  intro text item behind bracket
  have begins :
      Cursor.ofText text = ⟨['(', 'a', ')', '[', '^'], 0, 0⟩ := by
    simp [Cursor.ofText, text]
  have outermost :
      CalledFor text (.items ⟨['(', 'a', ')', '[', '^'], 0, 0⟩) := by
    rw [← begins]
    exact (Relation.ReflTransGen.single .firstBranch).tail .items
  have calledItem : CalledFor text item := outermost.tail (.item (by decide))
  have reads : item.answer = .ok (.group 1 (.literal 'a'), behind) := by
    simp [item, behind, answer, parseAlternation, parseConcatenation,
      parseItems, parseQuantified, parseAtom, parseGroup, Cursor.openGroup,
      Cursor.skip, expect, quantify, RepeatKind.ofChar?, collapse]
  have calledBehind : CalledFor text (.items behind) :=
    outermost.tail (.laterItems (by decide) reads)
  have calledSet : CalledFor text (.set bracket) :=
    ((calledBehind.tail (.item (by decide))).tail .atom).tail .set
  obtain ⟨outcomes, sets, -⟩ := readers_only_advance text
  obtain ⟨inside, leaves⟩ := (outcomes item calledItem).2 _ behind reads
  obtain ⟨atEnd, bounded⟩ := sets bracket calledSet
  exact
    ⟨calledItem, reads, inside, leaves, calledSet, atEnd, bounded⟩

end ReaderCall

end LineSearch
