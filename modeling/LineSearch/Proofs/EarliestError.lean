import LineSearch.Proofs.FailedReading

namespace LineSearch

/-!
# Refusals come at the earliest point

A text is refused either because it ends too early, and then it can be completed,
or because of one of its characters, and then what stands in front of that
character can be completed while nothing with that character can.
-/

namespace Pattern

open Spelling

/-- A text is refused when its alternation is not read, or not to the end. -/
theorem compile_eq_error_iff
    {text : String}
    {reason : PatternError} :
    compile text = .error reason ↔
      answer (parseAlternation (Cursor.ofText text)) = .error reason ∨
        ∃ root? next,
          answer (parseAlternation (Cursor.ofText text)) =
              .ok (root?, next) ∧
            next.rest ≠ [] ∧
            reason =
              .trailingCharacters next.position (String.ofList next.rest) := by
  unfold compile
  cases parseAlternation (Cursor.ofText text) with
  | error other => simp
  | ok parsed =>
      rcases parsed with ⟨root?, ⟨_ | ⟨char, rest⟩, position, groups⟩, bound⟩
      · simp
      · constructor
        · intro refused
          cases refused
          exact Or.inr ⟨root?, _, rfl, List.cons_ne_nil char rest, rfl⟩
        · rintro (fails | ⟨_, _, reads, _, rfl⟩)
          · cases fails
          · cases reads
            rfl

/-- What begins like a spelt text and goes on suitably compiles. -/
theorem exists_compile_of_text_eq
    {spelling : Alternation}
    (formed : spelling.WellFormed)
    {text more : List Char}
    (whole : spelling.text = text ++ more) :
    ∃ pattern,
      compile (String.ofList text ++ String.ofList more) = .ok pattern := by
  have spells :
      spelling.Spells (String.ofList text ++ String.ofList more) := by
    refine ⟨formed, ?_⟩
    rw [whole, String.toList_append, String.toList_ofList, String.toList_ofList]
  exact ⟨_, compile_of_spells spells⟩

/-- No text that begins like this one compiles; all are refused for the same character. -/
def RefusedFrom (text : String) (fault : Fault) (position : Nat) : Prop :=
  position < text.length ∧
    (∃ more pattern,
      compile (String.ofList (text.toList.take position) ++ more) =
        .ok pattern) ∧
    ∀ other : String,
      other.toList.take (position + 1) = text.toList.take (position + 1) →
        ∃ reason,
          compile other = .error reason ∧
            reason.fault? = some (fault, position)

theorem refusedFrom_of_cut
    {text : String}
    {fault : Fault}
    {seen later : List Char}
    {char : Char}
    (shape : text.toList = seen ++ char :: later)
    {spelling : Alternation}
    (formed : spelling.WellFormed)
    {more : List Char}
    (whole : spelling.text = seen ++ more)
    (always :
      ∀ other,
        ∃ reason,
          compile (String.ofList (seen ++ char :: other)) = .error reason ∧
            reason.fault? = some (fault, seen.length)) :
    RefusedFrom text fault seen.length := by
  refine ⟨?_, ⟨String.ofList more, ?_⟩, fun other same => ?_⟩
  · rw [← String.length_toList, shape]
    simp
  · rw [shape, List.take_left]
    exact exists_compile_of_text_eq formed whole
  · have begins :
        other.toList = seen ++ char :: other.toList.drop (seen.length + 1) := by
      have head : other.toList.take (seen.length + 1) = seen ++ [char] := by
        rw [same, shape, List.append_cons]
        exact List.take_left' (by simp)
      have parts := List.take_append_drop (seen.length + 1) other.toList
      rw [head, List.append_assoc] at parts
      exact parts.symm
    have refused := always (other.toList.drop (seen.length + 1))
    rwa [← begins, String.ofList_toList] at refused

/-- Behind a whole alternation only a closing parenthesis can be left over. -/
theorem refusedFrom_of_trailing
    {text : String}
    {spelling : Alternation}
    (formed : spelling.WellFormed)
    {next : Cursor}
    (between :
      Between (Cursor.ofText text) spelling.text spelling.groups next)
    (ends : Ends next.rest)
    (left : next.rest ≠ []) :
    RefusedFrom text .trailing next.position := by
  obtain ⟨char, later, shape⟩ := List.exists_cons_of_ne_nil left
  obtain rfl : char = ')' := ends char (by rw [shape]; rfl)
  have here : next.position = spelling.text.length := by
    rw [between.position]
    exact Nat.zero_add _
  rw [here]
  refine
    refusedFrom_of_cut (shape ▸ between.rest) formed
      (List.append_nil _).symm fun other => ?_
  have exchanged := between.exchange (')' :: other)
  obtain ⟨root?, reads, -⟩ :=
    Alternation.read spelling formed (Ends.close other) exchanged
  have start :
      Cursor.ofText (String.ofList (spelling.text ++ ')' :: other)) =
        ⟨spelling.text ++ ')' :: other, 0, 0⟩ := by
    rw [Cursor.ofText, String.toList_ofList]
  refine
    ⟨_, compile_eq_error_iff.mpr (Or.inr ⟨root?, _, start ▸ reads, by simp, rfl⟩), ?_⟩
  rw [← here]
  rfl

/--
A text that is refused without a character out of place can be completed.  If a
character is out of place, what stands in front of it can be completed, and
every text with the same beginning up to that character is refused for it.
-/
theorem refused_at_the_earliest_point
    {text : String}
    {reason : PatternError}
    (refused : compile text = .error reason) :
    (reason.fault? = none →
        ∃ more,
          more ≠ "" ∧ ∃ pattern, compile (text ++ more) = .ok pattern) ∧
      ∀ fault position,
        reason.fault? = some (fault, position) →
          RefusedFrom text fault position := by
  rcases compile_eq_error_iff.mp refused with
    fails | ⟨root?, next, reads, left, rfl⟩
  · obtain ⟨seen, more, before, spelling, formed, whole⟩ :=
      parseAlternation_fails _ fails
    cases before with
    | all early =>
        have completed :
            ∃ pattern,
              compile (text ++ String.ofList more) = .ok pattern := by
          simpa [Cursor.ofText] using exists_compile_of_text_eq formed whole
        refine ⟨fun _ => ⟨String.ofList more, ?_, completed⟩, ?_⟩
        · intro nothing
          rw [nothing, String.append_empty, refused] at completed
          obtain ⟨pattern, compiles⟩ := completed
          cases compiles
        · intro fault position here
          rw [early] at here
          cases here
    | upTo seen char later shape here always =>
        refine ⟨fun early => ?_, fun fault position same => ?_⟩
        · rw [early] at here
          cases here
        · rw [here] at same
          cases same
          rw [Cursor.ofText, Nat.zero_add]
          refine refusedFrom_of_cut shape formed whole fun other => ?_
          refine ⟨reason, compile_eq_error_iff.mpr (Or.inl ?_), ?_⟩
          · rw [Cursor.ofText, String.toList_ofList]
            exact always other
          · rw [here, Cursor.ofText, Nat.zero_add]
  · obtain ⟨spelling, formed, ends, between, -⟩ :=
      parseAlternation_spelt _ reads
    refine ⟨fun early => (by cases early), fun fault position here => ?_⟩
    cases here
    exact refusedFrom_of_trailing formed between ends left

/-- A set left open can be closed; a second bar behind a bar is wrong for good. -/
theorem refused_at_the_earliest_point_in_a_group :
    (compile "(a|[b" = .error (.unclosedSet 3) ∧
        ∃ more,
          more ≠ "" ∧ ∃ pattern, compile ("(a|[b" ++ more) = .ok pattern) ∧
      compile "(a||b" = .error (.emptyAlternative 3) ∧
        RefusedFrom "(a||b" .emptyBranch 3 := by
  have unclosed : compile "(a|[b" = .error (.unclosedSet 3) := by
    simp [compile, Cursor.ofText, parseAlternation, parseConcatenation,
      parseItems, parseQuantified, parseAtom, parseGroup, Cursor.openGroup,
      quantify, RepeatKind.ofChar?, collapse, parseBranches, parseSet]
  have wrong : compile "(a||b" = .error (.emptyAlternative 3) := by
    simp [compile, Cursor.ofText, parseAlternation, parseConcatenation,
      parseItems, parseQuantified, parseAtom, parseGroup, Cursor.openGroup,
      quantify, RepeatKind.ofChar?, collapse, parseBranches]
  exact
    ⟨⟨unclosed, (refused_at_the_earliest_point unclosed).1 rfl⟩,
      wrong, (refused_at_the_earliest_point wrong).2 _ _ rfl⟩

end Pattern

end LineSearch
