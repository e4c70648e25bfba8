import LineSearch.Proofs.EarliestError

namespace LineSearch

/-!
# Which character an error is about

An error names a position, and what stands at that position or directly in front
of it is the reason for the error.  The readers know this of each other only by
where they stop: items stop at a bar, at a closing parenthesis or at the end, an
alternation never at a bar, and what a reader has gone over is the text between
two cursors.
-/

namespace PatternError

/-- This character stands directly in front of the position. -/
def Behind (text : String) (char : Char) (position : Nat) : Prop :=
  ∃ before, position = before + 1 ∧ text.toList[before]? = some char

/--
The error points at the character that is responsible: at the parenthesis or the
bar that is out of place, at the bracket that opens a set which is not closed, or
at the end of a text that ends too early.
-/
def PointsInto (text : String) : PatternError → Prop
  | .incompleteAlternation => text.toList.getLast? = some '|'
  | .emptyAlternative position =>
      text.toList[position]? = some '|' ∧
          (position = 0 ∨ Behind text '(' position) ∨
        Behind text '|' position ∧
          (text.toList[position]? = some '|' ∨
            text.toList[position]? = some ')')
  | .expected char found? position =>
      char = ')' ∧ found? = none ∧ position = text.length
  | .unclosedSet position =>
      text.toList[position]? = some '[' ∧
        ']' ∉ text.toList.drop (position + 1)
  | .incompleteEscape => text.toList.getLast? = some '\\'
  | .trailingCharacters position rest =>
      text.toList[position]? = some ')' ∧
        rest = String.ofList (text.toList.drop position) ∧
        ∃ pattern,
          Pattern.compile (String.ofList (text.toList.take position)) =
            .ok pattern

section Cuts

-- What an error says of a text, once it is known how the text is cut at the error.

variable {text : String} {before behind : List Char} {char : Char}

theorem getElem?_of_cut
    (shape : text.toList = before ++ char :: behind) :
    text.toList[before.length]? = some char := by
  rw [shape, List.getElem?_append_right (Nat.le_refl _), Nat.sub_self]
  rfl

theorem behind_of_cut
    (shape : text.toList = before ++ char :: behind) :
    Behind text char (before.length + 1) :=
  ⟨before.length, rfl, getElem?_of_cut shape⟩

theorem getLast?_of_cut
    (shape : text.toList = before ++ [char]) :
    text.toList.getLast? = some char := by
  rw [shape, List.getLast?_append]
  rfl

theorem pointsInto_unclosedSet
    (shape : text.toList = before ++ '[' :: behind)
    (unclosed : ']' ∉ behind) :
    (unclosedSet before.length).PointsInto text := by
  refine ⟨getElem?_of_cut shape, ?_⟩
  rw [shape, List.append_cons, List.drop_left' (by simp)]
  exact unclosed

theorem pointsInto_trailingCharacters
    {pattern : Pattern}
    (shape : text.toList = before ++ ')' :: behind)
    (compiled : Pattern.compile (String.ofList before) = .ok pattern) :
    (trailingCharacters before.length (String.ofList (')' :: behind))).PointsInto
      text := by
  refine ⟨getElem?_of_cut shape, ?_, pattern, ?_⟩
  · rw [shape, List.drop_left]
  · rw [shape, List.take_left]
    exact compiled

end Cuts

end PatternError

/-- Reading the text, one has come through these characters to this cursor. -/
structure Reached
    (text : String)
    (before : List Char)
    (cursor : Cursor) : Prop where
  shape : text.toList = before ++ cursor.rest
  place : cursor.position = before.length

namespace Reached

variable {text : String} {before : List Char}

theorem ofText (text : String) :
    Reached text [] (Cursor.ofText text) :=
  ⟨rfl, rfl⟩

theorem onward
    {start next : Cursor}
    {more : List Char}
    {opened : Nat}
    (reached : Reached text before start)
    (between : Between start more opened next) :
    Reached text (before ++ more) next where
  shape := by
    rw [reached.shape, between.rest, List.append_assoc]
  place := by
    rw [between.position, reached.place, List.length_append]

theorem char
    {char : Char}
    {rest : List Char}
    {position groups : Nat}
    (reached : Reached text before ⟨char :: rest, position, groups⟩) :
    Reached text (before ++ [char]) ⟨rest, position + 1, groups⟩ :=
  reached.onward (Between.char char rest position groups)

theorem openGroup
    {cursor : Cursor}
    (reached : Reached text before cursor) :
    Reached text before cursor.openGroup :=
  ⟨reached.shape, reached.place⟩

end Reached

namespace Spelling

open Pattern PatternError

variable {text : String} {reason : PatternError}

/-- A set that is not closed is blamed on its opening bracket. -/
theorem parseSet_pointsInto
    {before : List Char}
    {start : Cursor}
    (reached : Reached text (before ++ ['[']) start)
    (fails : answer (parseSet start) = .error reason) :
    reason.PointsInto text := by
  obtain ⟨shape, place⟩ := reached
  rw [List.append_assoc, List.singleton_append] at shape
  have opening : start.position - 1 = before.length := by
    rw [place, List.length_append]
    rfl
  rw [answer_parseSet, opening] at fails
  split at fails
  · next negated =>
      obtain ⟨rfl, unclosed⟩ := membersAnswer_fails fails
      apply pointsInto_unclosedSet shape
      rcases start with ⟨_ | ⟨char, members⟩, position, groups⟩
      · cases negated
      · cases negated
        exact List.not_mem_cons_of_ne_of_not_mem (by decide) unclosed
  · obtain ⟨rfl, unclosed⟩ := membersAnswer_fails fails
    exact pointsInto_unclosedSet shape unclosed

/-- Behind a bar the text ends, or a branch is missing in front of what stands there. -/
theorem emptyBranch_pointsInto
    {before rest : List Char}
    {position groups : Nat}
    (reached :
      Reached text (before ++ ['|']) ⟨rest, position, groups⟩)
    (stops : Stops rest)
    (fails :
      (if rest = [] then
          .error .incompleteAlternation
        else
          .error (.emptyAlternative position) :
        Except PatternError (List Node × Cursor)) =
          .error reason) :
    reason.PointsInto text := by
  obtain ⟨shape, rfl⟩ := reached
  cases rest with
  | nil =>
      cases fails
      exact getLast?_of_cut (shape.trans (List.append_nil _))
  | cons char later =>
      cases fails
      have here := getElem?_of_cut shape
      rw [List.append_assoc] at shape
      have bar : Behind text '|' (before ++ ['|']).length := by
        rw [List.length_append]
        exact behind_of_cut shape
      refine Or.inr ⟨bar, ?_⟩
      rcases stops char rfl with rfl | rfl
      · exact Or.inl here
      · exact Or.inr here

/-- A bar at which an alternation begins has no branch in front of it. -/
theorem emptyFirst_pointsInto
    {before : List Char}
    {cursor : Cursor}
    (reached : Reached text before cursor)
    (opens : before = [] ∨ ∃ outside, before = outside ++ ['('])
    (bar : cursor.rest.head? = some '|') :
    (emptyAlternative cursor.position).PointsInto text := by
  obtain ⟨shape, place⟩ := reached
  obtain ⟨rest, isRest⟩ : ∃ rest, cursor.rest = '|' :: rest := by
    cases rest : cursor.rest with
    | nil => simp [rest] at bar
    | cons char later => exact ⟨later, by simpa [rest] using bar⟩
  rw [isRest] at shape
  rw [place]
  refine Or.inl ⟨getElem?_of_cut shape, ?_⟩
  rcases opens with rfl | ⟨outside, rfl⟩
  · exact Or.inl rfl
  · rw [List.append_assoc] at shape
    rw [List.length_append]
    exact Or.inr (behind_of_cut shape)

/-- A group can only be left open at the end of the text. -/
theorem openGroup_pointsInto
    {before : List Char}
    {cursor : Cursor}
    (reached : Reached text before cursor)
    (ends : Ends cursor.rest)
    (notClosed : cursor.rest.head? ≠ some ')') :
    (expected ')' cursor.rest.head? cursor.position).PointsInto text := by
  obtain ⟨shape, place⟩ := reached
  have nothing := ends.eq_nil notClosed
  rw [nothing, List.append_nil] at shape
  rw [nothing, place, ← shape]
  exact ⟨rfl, rfl, String.length_toList⟩

-- The induction is the readers' own, as for what is read; what was gone over so
-- far is carried along, and at the beginning of an alternation what opens it.

mutual

/-- Where reading items fails, the error points at the character that is responsible. -/
theorem parseItems_pointsInto :
    (start : Cursor) →
    {before : List Char} →
    Reached text before start →
    answer (parseItems start) = .error reason →
    reason.PointsInto text
  | ⟨[], position, groups⟩, _, _, fails => by
      rw [answer_parseItems_nil] at fails
      cases fails
  | ⟨char :: rest, position, groups⟩, before, reached, fails => by
      by_cases stop : char = '|' ∨ char = ')'
      · rw [answer_parseItems_stop stop] at fails
        cases fails
      rw [answer_parseItems_cons stop, bind_eq_error_iff] at fails
      rcases fails with failsItem | ⟨⟨item, middle⟩, readsItem, afterItem⟩
      · exact
          parseQuantified_pointsInto char rest (position + 1) groups
            reached.char failsItem
      · obtain ⟨atom, kind?, -, -, shorter, between, -⟩ :=
          parseQuantified_spelt char stop rest position groups readsItem
        have failsLater : answer (parseItems middle) = .error reason :=
          eq_error_of_bind afterItem fun ⟨_, _⟩ => nofun
        exact
          parseItems_pointsInto middle (reached.onward between) failsLater
termination_by start => (start.rest.length, 0)
decreasing_by
  · exact Prod.Lex.left _ _ (Nat.lt_succ_self _)
  · exact Prod.Lex.left _ _ (Nat.lt_succ_of_le shorter)

theorem parseBranches_pointsInto :
    (start : Cursor) →
    {before : List Char} →
    Reached text before start →
    answer (parseBranches start) = .error reason →
    reason.PointsInto text
  | ⟨[], position, groups⟩, _, _, fails => by
      rw [answer_parseBranches_nil] at fails
      cases fails
  | ⟨char :: rest, position, groups⟩, before, reached, fails => by
      by_cases other : char ≠ '|'
      · rw [answer_parseBranches_stop other] at fails
        cases fails
      obtain rfl : char = '|' := Decidable.not_not.mp other
      rw [answer_parseBranches_bar, answer_parseConcatenation,
        bind_eq_error_iff] at fails
      rcases fails with
        failsBranch | ⟨⟨branch?, middle⟩, readsBranch, afterBranch⟩
      · have failsItems :
            answer (parseItems ⟨rest, position + 1, groups⟩) =
              .error reason :=
          eq_error_of_bind failsBranch fun ⟨_, _⟩ => nofun
        exact parseItems_pointsInto _ reached.char failsItems
      obtain ⟨⟨items, last⟩, readsItems, whole⟩ :=
        bind_eq_ok_iff.mp readsBranch
      cases whole
      obtain ⟨branch, -, stops, between, sameBranch⟩ :=
        parseItems_spelt _ readsItems
      have behindBar : middle.rest.length ≤ rest.length := between.rest_le
      by_cases empty : branch = .nil
      · subst empty
        obtain rfl := between.eq_of_nil
        cases sameBranch
        exact emptyBranch_pointsInto reached.char stops afterBranch
      · rw [← sameBranch,
          collapse_of_ne_nil (Items.nodes_ne_nil empty _)] at afterBranch
        have failsLater : answer (parseBranches middle) = .error reason :=
          eq_error_of_bind afterBranch fun ⟨_, _⟩ => nofun
        exact
          parseBranches_pointsInto middle (reached.char.onward between)
            failsLater
termination_by start => (start.rest.length, 1)
decreasing_by
  · exact Prod.Lex.left _ _ (Nat.lt_succ_self _)
  · exact Prod.Lex.left _ _ (Nat.lt_succ_of_le behindBar)

theorem parseAlternation_pointsInto
    (start : Cursor)
    {before : List Char}
    (reached : Reached text before start)
    (opens : before = [] ∨ ∃ outside, before = outside ++ ['('])
    (fails : answer (parseAlternation start) = .error reason) :
    reason.PointsInto text := by
  rw [answer_parseAlternation, answer_parseConcatenation,
    bind_eq_error_iff] at fails
  rcases fails with failsFirst | ⟨⟨first?, middle⟩, readsFirst, afterFirst⟩
  · have failsItems : answer (parseItems start) = .error reason :=
      eq_error_of_bind failsFirst fun ⟨_, _⟩ => nofun
    exact parseItems_pointsInto start reached failsItems
  obtain ⟨⟨items, last⟩, readsItems, whole⟩ := bind_eq_ok_iff.mp readsFirst
  cases whole
  obtain ⟨first, -, -, between, sameFirst⟩ :=
    parseItems_spelt start readsItems
  have behindFirst := between.rest_le
  by_cases bar : middle.rest.head? = some '|'
  · simp only [if_pos bar] at afterFirst
    by_cases empty : first = .nil
    · subst empty
      obtain rfl := between.eq_of_nil
      cases sameFirst
      cases afterFirst
      exact emptyFirst_pointsInto reached opens bar
    · rw [← sameFirst,
        collapse_of_ne_nil (Items.nodes_ne_nil empty _)] at afterFirst
      have failsFurther : answer (parseBranches middle) = .error reason :=
        eq_error_of_bind afterFirst fun ⟨_, _⟩ => nofun
      exact
        parseBranches_pointsInto middle (reached.onward between) failsFurther
  · simp only [if_neg bar] at afterFirst
    cases afterFirst
termination_by (start.rest.length, 2)
decreasing_by
  · exact Prod.Lex.right _ (by decide)
  · exact Prod.lex_def.mpr
      ((Nat.lt_or_eq_of_le behindFirst).imp_right
        fun same => ⟨same, Nat.lt_succ_self 1⟩)

theorem parseAtom_pointsInto
    (char : Char)
    (rest : List Char)
    (position groups : Nat)
    {before : List Char}
    (reached : Reached text (before ++ [char]) ⟨rest, position, groups⟩)
    (fails :
      answer (parseAtom char ⟨rest, position, groups⟩) = .error reason) :
    reason.PointsInto text := by
  by_cases isGroup : char = '('
  · subst isGroup
    rw [answer_parseAtom_group, answer_parseGroup, bind_eq_error_iff] at fails
    rcases fails with failsBody | ⟨⟨body?, middle⟩, readsBody, afterBody⟩
    · exact
        parseAlternation_pointsInto _ reached.openGroup
          (Or.inr ⟨before, rfl⟩) failsBody
    · obtain ⟨body, -, ends, between, -⟩ :=
        parseAlternation_spelt _ readsBody
      by_cases closes : middle.rest.head? = some ')'
      · simp only [if_pos closes] at afterBody
        cases afterBody
      · simp only [if_neg closes] at afterBody
        cases afterBody
        exact
          openGroup_pointsInto (reached.openGroup.onward between) ends closes
  by_cases isSet : char = '['
  · subst isSet
    rw [answer_parseAtom_set] at fails
    exact parseSet_pointsInto reached fails
  by_cases isEscape : char = '\\'
  · subst isEscape
    rw [answer_parseAtom_escape] at fails
    cases rest with
    | nil =>
        cases fails
        exact getLast?_of_cut (reached.shape.trans (List.append_nil _))
    | cons escapedChar later => cases fails
  rw [answer_parseAtom_plain isGroup isSet isEscape] at fails
  cases fails
termination_by (rest.length, 3)
decreasing_by
  exact Prod.Lex.right _ (by decide)

theorem parseQuantified_pointsInto
    (char : Char)
    (rest : List Char)
    (position groups : Nat)
    {before : List Char}
    (reached : Reached text (before ++ [char]) ⟨rest, position, groups⟩)
    (fails :
      answer (parseQuantified char ⟨rest, position, groups⟩) =
        .error reason) :
    reason.PointsInto text := by
  apply parseAtom_pointsInto char rest position groups reached
  rw [answer_parseQuantified] at fails
  exact eq_error_of_bind fails fun ⟨_, _⟩ => nofun
termination_by (rest.length, 4)
decreasing_by
  exact Prod.Lex.right _ (by decide)

end

end Spelling

namespace Pattern

open Spelling PatternError

/-- Behind a whole alternation only a closing parenthesis is left over. -/
theorem trailing_pointsInto
    {text : String}
    {spelling : Alternation}
    (formed : spelling.WellFormed)
    {next : Cursor}
    (reached : Reached text spelling.text next)
    (ends : Ends next.rest)
    (left : next.rest ≠ []) :
    (trailingCharacters next.position (String.ofList next.rest)).PointsInto
      text := by
  obtain ⟨shape, place⟩ := reached
  obtain ⟨char, later, isRest⟩ := List.exists_cons_of_ne_nil left
  obtain rfl : char = ')' := ends char (by rw [isRest]; rfl)
  rw [isRest] at shape
  rw [isRest, place]
  have spells : spelling.Spells (String.ofList spelling.text) :=
    ⟨formed, String.toList_ofList.symm⟩
  exact pointsInto_trailingCharacters shape (compile_of_spells spells)

/--
Every error points at the character that is responsible.  A missing parenthesis
is only ever missed at the end of the text, and what is left over begins with a
closing parenthesis, in front of which a whole pattern stands.
-/
theorem errors_point_at_their_character
    {text : String}
    {reason : PatternError}
    (refused : compile text = .error reason) :
    reason.PointsInto text := by
  rcases compile_eq_error_iff.mp refused with
    fails | ⟨root?, next, reads, left, rfl⟩
  · exact
      parseAlternation_pointsInto _ (Reached.ofText text) (Or.inl rfl) fails
  · obtain ⟨spelling, formed, ends, between, -⟩ :=
      parseAlternation_spelt _ reads
    exact
      trailing_pointsInto formed ((Reached.ofText text).onward between) ends
        left

/-- A parenthesis is blamed where a branch is missing in front of it, and where it closes nothing. -/
theorem errors_point_at_their_character_beside_parentheses :
    (compile "(a|)b" = .error (.emptyAlternative 3) ∧
        (emptyAlternative 3).PointsInto "(a|)b") ∧
      compile "a)b" = .error (.trailingCharacters 1 ")b") ∧
        (trailingCharacters 1 ")b").PointsInto "a)b" := by
  have missing : compile "(a|)b" = .error (.emptyAlternative 3) := by
    simp [compile, Cursor.ofText, parseAlternation, parseConcatenation,
      parseItems, parseQuantified, parseAtom, parseGroup, Cursor.openGroup,
      quantify, RepeatKind.ofChar?, collapse, parseBranches]
  have unopened : compile "a)b" = .error (.trailingCharacters 1 ")b") := by
    simp [compile, Cursor.ofText, parseAlternation, parseConcatenation,
      parseItems, parseQuantified, parseAtom, quantify, RepeatKind.ofChar?,
      collapse]
  exact
    ⟨⟨missing, errors_point_at_their_character missing⟩,
      unopened, errors_point_at_their_character unopened⟩

end Pattern

end LineSearch
