import LineSearch.Proofs.CompiledSpelling

namespace LineSearch

/-!
# What a failing reader has seen

A reader that fails has seen a beginning of its text that some spelling begins with
as well.  It has seen all of its text if that ends too early.  Otherwise it fails
at one character, whatever stands behind it: everything that was read before reads
the same in front of any text with the same first character.
-/

/-- The ways in which a character is out of place. -/
inductive Fault where
  /-- A branch should have stood in front of the character. -/
  | emptyBranch
  /-- The pattern is over in front of the character. -/
  | trailing
  deriving Repr, DecidableEq

namespace PatternError

/-- The character that is out of place, by its position; none if the text ends too early. -/
def fault? : PatternError → Option (Fault × Nat)
  | .emptyAlternative position => some (.emptyBranch, position)
  | .trailingCharacters position _ => some (.trailing, position)
  | .incompleteAlternation => none
  | .incompleteEscape => none
  | .unclosedSet _ => none
  | .expected _ _ _ => none

end PatternError

namespace Between

/-- The text behind what was read can be exchanged. -/
theorem exchange
    {start next : Cursor}
    {text : List Char}
    {opened : Nat}
    (between : Between start text opened next)
    (other : List Char) :
    Between ⟨text ++ other, start.position, start.groups⟩ text opened
      ⟨other, next.position, next.groups⟩ :=
  ⟨rfl, between.position, between.groups⟩

end Between

namespace Pattern

/-- What is done in turn fails at the first failure. -/
theorem bind_eq_error_iff
    {first : Except PatternError α}
    {next : α → Except PatternError β}
    {reason : PatternError} :
    first >>= next = .error reason ↔
      first = .error reason ∨
        ∃ middle, first = .ok middle ∧ next middle = .error reason := by
  cases first with
  | error other => simp [bind, Except.bind]
  | ok middle => simp [bind, Except.bind]

/-- What is done in turn fails at the beginning if nothing can fail later. -/
theorem eq_error_of_bind
    {first : Except PatternError α}
    {next : α → Except PatternError β}
    {reason : PatternError}
    (fails : first >>= next = .error reason)
    (succeeds : ∀ middle, next middle ≠ .error reason) :
    first = .error reason :=
  (bind_eq_error_iff.mp fails).resolve_right
    fun ⟨middle, _, failsLater⟩ => succeeds middle failsLater

end Pattern

namespace Spelling

open Pattern

theorem Stops.of_head?_eq
    {rest other : List Char}
    (stops : Stops rest)
    (same : other.head? = rest.head?) :
    Stops other :=
  fun char begins => stops char (same ▸ begins)

theorem Ends.eq_nil
    {rest : List Char}
    (ends : Ends rest)
    (notClosed : rest.head? ≠ some ')') :
    rest = [] := by
  cases rest with
  | nil => rfl
  | cons char later => exact (notClosed (ends char rfl ▸ rfl)).elim

/--
A reader at this cursor, failing for this reason, has come through these
characters: through the whole text if it ends too early, and otherwise up to a
character at which the reader fails whatever stands behind it.
-/
inductive SeenBefore
    (read : Cursor → Except PatternError (α × Cursor))
    (start : Cursor)
    (reason : PatternError) :
    List Char → Prop where
  | all (early : reason.fault? = none) :
      SeenBefore read start reason start.rest
  | upTo
      (seen : List Char)
      (char : Char)
      (later : List Char)
      (shape : start.rest = seen ++ char :: later)
      (here :
        reason.fault? = some (.emptyBranch, start.position + seen.length))
      (always :
        ∀ other,
          read ⟨seen ++ char :: other, start.position, start.groups⟩ =
            .error reason) :
      SeenBefore read start reason seen

/-- What one reader has seen, another one has that calls it further on. -/
theorem SeenBefore.behind
    {read : Cursor → Except PatternError (α × Cursor)}
    {call : Cursor → Except PatternError (β × Cursor)}
    {start next : Cursor}
    {text seen : List Char}
    {opened : Nat}
    {reason : PatternError}
    (before : SeenBefore call next reason seen)
    (between : Between start text opened next)
    (carries :
      ∀ other,
        other.head? = next.rest.head? →
          call ⟨other, next.position, next.groups⟩ = .error reason →
          read ⟨text ++ other, start.position, start.groups⟩ =
            .error reason) :
    SeenBefore read start reason (text ++ seen) := by
  cases before with
  | all early =>
      rw [← between.rest]
      exact .all early
  | upTo seen char later shape here always =>
      refine .upTo _ char later ?_ ?_ fun other => ?_
      · rw [between.rest, shape, List.append_assoc]
      · rw [here, between.position, List.length_append, Nat.add_assoc]
      · rw [List.append_assoc]
        refine carries _ ?_ (always other)
        rw [shape]
        cases seen <;> rfl

/-- An item is read in front of anything that is no repetition sign for it. -/
theorem Atom.read_repeated
    {start next : Cursor}
    {atom : Atom}
    {kind? : Option RepeatKind}
    (formed : atom.WellFormed)
    (between :
      Between start (atom.text ++ (kind?.map RepeatKind.sign).toList)
        (atom.groups + 0) next)
    (free :
      kind? = none → ∀ kind : RepeatKind, next.rest.head? ≠ some kind.sign) :
    ∃ char rest,
      start = ⟨char :: rest, start.position, start.groups⟩ ∧
        answer
            (parseQuantified char
              ⟨rest, start.position + 1, start.groups⟩) =
          .ok (repeated (atom.node start.groups) kind?, next) := by
  obtain ⟨middle, atomBetween, sign⟩ := between.split
  obtain ⟨char, rest, shape, reads⟩ := Atom.read atom formed atomBetween
  refine ⟨char, rest, shape, ?_⟩
  obtain ⟨sameItem, sameNext⟩ :=
    Prod.mk.inj (quantify_eq (atom.node start.groups) sign free)
  rw [answer_parseQuantified, reads]
  simp only [bind, Except.bind, pure, Except.pure, sameItem, sameNext]

/-- A text ends inside a set when no bracket of it closes the set. -/
theorem membersAnswer_fails
    {negated : Bool}
    {opening : Nat}
    {start : Cursor}
    {reason : PatternError}
    (fails : membersAnswer negated opening start = .error reason) :
    reason = .unclosedSet opening ∧ ']' ∉ start.rest := by
  unfold membersAnswer at fails
  simp only at fails
  split at fails
  · cases fails
  · rename_i notClosed
    refine ⟨(Except.error.inj fails).symm, ?_⟩
    have whole : start.rest.takeWhile (· != ']') = start.rest :=
      (List.takeWhile_prefix _).eq_of_length_le (Nat.le_of_not_lt notClosed)
    intro closes
    rw [← whole] at closes
    simpa using List.all_eq_true.mp List.all_takeWhile _ closes

theorem parseSet_fails
    {start : Cursor}
    {reason : PatternError}
    (fails : answer (parseSet start) = .error reason) :
    reason.fault? = none ∧
      ∃ atom : Atom,
        atom.WellFormed ∧ atom.text = '[' :: (start.rest ++ [']']) := by
  rw [answer_parseSet] at fails
  split at fails
  · rename_i begins
    obtain ⟨rfl, unclosed⟩ := membersAnswer_fails fails
    rcases start with ⟨_ | ⟨char, members⟩, position, groups⟩
    · cases begins
    · cases begins
      exact ⟨rfl, .set true members, ⟨unclosed, by simp⟩, rfl⟩
  · rename_i plain
    obtain ⟨rfl, unclosed⟩ := membersAnswer_fails fails
    exact ⟨rfl, .set false start.rest, ⟨unclosed, fun _ => plain⟩, rfl⟩

/-- Once an item is read, the items fail when the later ones do. -/
theorem parseItems_fails_behind
    {start middle : Cursor}
    {atom : Atom}
    {kind? : Option RepeatKind}
    (formed : atom.WellFormed)
    (between :
      Between start (atom.text ++ (kind?.map RepeatKind.sign).toList)
        atom.groups middle)
    (free :
      kind? = none → ∀ kind : RepeatKind, middle.rest.head? ≠ some kind.sign)
    {reason : PatternError}
    (fails : answer (parseItems middle) = .error reason) :
    answer (parseItems start) = .error reason := by
  obtain ⟨char, rest, shape, reads⟩ :=
    Atom.read_repeated formed between free
  have goesOn : ¬ (char = '|' ∨ char = ')') := by
    intro stop
    refine (Stops.cons rest stop).ne_atom_append formed
      ((kind?.map RepeatKind.sign).toList ++ middle.rest) ?_
    rw [← List.append_assoc, ← between.rest, shape]
  rw [shape, answer_parseItems_cons goesOn, reads]
  simp only [bind, Except.bind, fails]

/-- Once a branch is read behind its bar, the branches fail when the later ones do. -/
theorem parseBranches_fails_behind
    {start middle : Cursor}
    {branch : Items}
    (nonempty : branch ≠ .nil)
    (formed : branch.WellFormed)
    (between : Between start ('|' :: branch.text) branch.groups middle)
    (stops : Stops middle.rest)
    {reason : PatternError}
    (fails : answer (parseBranches middle) = .error reason) :
    answer (parseBranches start) = .error reason := by
  obtain ⟨shape, behind⟩ := between.cons
  have reads := Items.read branch formed stops behind
  rw [shape, answer_parseBranches_bar, answer_parseConcatenation, reads]
  simp only [bind, Except.bind, pure, Except.pure,
    collapse_of_ne_nil (Items.nodes_ne_nil nonempty _), fails]

/-- Once the first branch is read in front of a bar, an alternation fails when the others do. -/
theorem parseAlternation_fails_behind
    {start middle : Cursor}
    {first : Items}
    (nonempty : first ≠ .nil)
    (formed : first.WellFormed)
    (between : Between start first.text first.groups middle)
    (bar : middle.rest.head? = some '|')
    {reason : PatternError}
    (fails : answer (parseBranches middle) = .error reason) :
    answer (parseAlternation start) = .error reason := by
  have stops : Stops middle.rest := by
    intro char begins
    rw [bar] at begins
    exact Or.inl (Option.some.inj begins).symm
  have reads := Items.read first formed stops between
  rw [answer_parseAlternation, answer_parseConcatenation, reads]
  simp only [bind, Except.bind, pure, Except.pure, if_pos bar,
    collapse_of_ne_nil (Items.nodes_ne_nil nonempty _), fails]

/-- The shortest branch there is. -/
private def oneItem : Items :=
  .cons (.plain 'a') none .nil

private theorem oneItem_wellFormed : oneItem.WellFormed := by
  decide

/-- A bar with no branch behind it is the end of the text or makes the next character wrong. -/
theorem emptyBranch_fails
    {rest : List Char}
    {position groups : Nat}
    (stops : Stops rest)
    {reason : PatternError}
    (fails :
      answer (parseBranches ⟨'|' :: rest, position, groups⟩) =
        .error reason) :
    ∃ seen more,
      SeenBefore (fun cursor => answer (parseBranches cursor))
          ⟨'|' :: rest, position, groups⟩ reason seen ∧
        ∃ branches : Branches,
          branches.WellFormed ∧ branches.text = seen ++ more := by
  have reads (other : List Char) (stops : Stops other) :
      answer (parseBranches ⟨'|' :: other, position, groups⟩) =
        if other = [] then
          .error .incompleteAlternation
        else
          .error (.emptyAlternative (position + 1)) := by
    have nothing :
        answer (parseItems ⟨other, position + 1, groups⟩) =
          .ok ([], ⟨other, position + 1, groups⟩) :=
      Items.read .nil trivial stops (Between.refl _)
    rw [answer_parseBranches_bar, answer_parseConcatenation, nothing]
    rfl
  have completed : (Branches.cons oneItem .nil).WellFormed :=
    ⟨by simp [oneItem], oneItem_wellFormed, trivial⟩
  refine ⟨['|'], ['a'], ?_, .cons oneItem .nil, completed, rfl⟩
  rw [reads rest stops] at fails
  cases rest with
  | nil =>
      cases fails
      exact .all rfl
  | cons char later =>
      cases fails
      refine .upTo ['|'] char later rfl rfl fun other => ?_
      exact reads (char :: other) (stops.of_head?_eq rfl)

/-- A bar in front of which no branch stands is wrong. -/
theorem emptyFirst_fails
    {start : Cursor}
    (bar : start.rest.head? = some '|')
    {reason : PatternError}
    (fails : answer (parseAlternation start) = .error reason) :
    ∃ seen more,
      SeenBefore (fun cursor => answer (parseAlternation cursor))
          start reason seen ∧
        ∃ spelling : Alternation,
          spelling.WellFormed ∧ spelling.text = seen ++ more := by
  rcases start with ⟨_ | ⟨char, later⟩, position, groups⟩
  · cases bar
  obtain rfl : char = '|' := Option.some.inj bar
  have reads (other : List Char) :
      answer (parseAlternation ⟨'|' :: other, position, groups⟩) =
        .error (.emptyAlternative position) := by
    have nothing :
        answer (parseItems ⟨'|' :: other, position, groups⟩) =
          .ok ([], ⟨'|' :: other, position, groups⟩) :=
      Items.read .nil trivial (Stops.cons other (Or.inl rfl)) (Between.refl _)
    rw [answer_parseAlternation, answer_parseConcatenation, nothing]
    rfl
  rw [reads later] at fails
  cases fails
  exact
    ⟨[], [], .upTo [] '|' later rfl rfl reads, .of .nil .nil,
      ⟨trivial, trivial, by simp⟩, rfl⟩

-- The induction is the readers' own, as for what is read.

mutual

/-- Where reading items fails, some items begin with what was seen. -/
theorem parseItems_fails
    {reason : PatternError} :
    (start : Cursor) →
    answer (parseItems start) = .error reason →
    ∃ seen more,
      SeenBefore (fun cursor => answer (parseItems cursor))
          start reason seen ∧
        ∃ items : Items,
          items ≠ .nil ∧ items.WellFormed ∧ items.text = seen ++ more ∧
            items.text.head? = start.rest.head?
  | ⟨[], position, groups⟩, fails => by
      rw [answer_parseItems_nil] at fails
      cases fails
  | ⟨char :: rest, position, groups⟩, fails => by
      by_cases stop : char = '|' ∨ char = ')'
      · rw [answer_parseItems_stop stop] at fails
        cases fails
      rw [answer_parseItems_cons stop, bind_eq_error_iff] at fails
      rcases fails with failsItem | ⟨⟨item, middle⟩, readsItem, afterItem⟩
      · obtain ⟨seen, more, before, atom, formed, text⟩ :=
          parseQuantified_fails char rest (position + 1) groups failsItem
        have whole : (Items.cons atom none .nil).text = char :: seen ++ more := by
          simpa [Items.text] using text
        refine
          ⟨char :: seen, more,
            before.behind (Between.char char rest position groups) ?_,
            .cons atom none .nil, by simp,
            ⟨formed, trivial, by simp [Items.text]⟩, whole, by rw [whole]; rfl⟩
        intro other _ failsOther
        rw [List.singleton_append, answer_parseItems_cons stop, failsOther]
        rfl
      · obtain ⟨atom, kind?, formed, free, shorter, between, _⟩ :=
          parseQuantified_spelt char stop rest position groups readsItem
        have failsLater : answer (parseItems middle) = .error reason :=
          eq_error_of_bind afterItem fun ⟨_, _⟩ => nofun
        obtain
          ⟨seen, more, before, items, nonempty, itemsFormed, text, begins⟩ :=
            parseItems_fails middle failsLater
        have whole :
            (Items.cons atom kind? items).text =
              atom.text ++ (kind?.map RepeatKind.sign).toList ++ seen ++ more := by
          rw [Items.text, text, List.append_assoc _ seen]
        refine
          ⟨_, more, before.behind between ?_, .cons atom kind? items, by simp,
            ⟨formed, itemsFormed, ?_⟩, whole, ?_⟩
        · intro other same failsOther
          refine parseItems_fails_behind formed (between.exchange other) ?_
            failsOther
          intro unrepeated kind
          rw [same]
          exact free unrepeated kind
        · intro unrepeated kind
          rw [begins]
          exact free unrepeated kind
        · obtain ⟨first, chars, shape, -, -⟩ := Atom.text_eq_cons formed
          rw [whole, between.rest, shape]
          rfl
termination_by start => (start.rest.length, 0)
decreasing_by
  · exact Prod.Lex.left _ _ (Nat.lt_succ_self _)
  · exact Prod.Lex.left _ _ (Nat.lt_succ_of_le shorter)

/-- Where reading further branches fails, some branches begin with what was seen. -/
theorem parseBranches_fails
    {reason : PatternError} :
    (start : Cursor) →
    answer (parseBranches start) = .error reason →
    ∃ seen more,
      SeenBefore (fun cursor => answer (parseBranches cursor))
          start reason seen ∧
        ∃ branches : Branches,
          branches.WellFormed ∧ branches.text = seen ++ more
  | ⟨[], position, groups⟩, fails => by
      rw [answer_parseBranches_nil] at fails
      cases fails
  | ⟨char :: rest, position, groups⟩, fails => by
      by_cases other : char ≠ '|'
      · rw [answer_parseBranches_stop other] at fails
        cases fails
      obtain rfl : char = '|' := Decidable.not_not.mp other
      have failsInside := fails
      rw [answer_parseBranches_bar, answer_parseConcatenation,
        bind_eq_error_iff] at failsInside
      rcases failsInside with
        failsBranch | ⟨⟨branch?, middle⟩, readsBranch, afterBranch⟩
      · have failsItems :
            answer (parseItems ⟨rest, position + 1, groups⟩) =
              .error reason :=
          eq_error_of_bind failsBranch fun ⟨_, _⟩ => nofun
        obtain ⟨seen, more, before, items, nonempty, formed, text, -⟩ :=
          parseItems_fails _ failsItems
        refine
          ⟨'|' :: seen, more,
            before.behind (Between.char '|' rest position groups) ?_,
            .cons items .nil, ⟨nonempty, formed, trivial⟩, ?_⟩
        · intro other _ failsOther
          rw [List.singleton_append, answer_parseBranches_bar,
            answer_parseConcatenation, failsOther]
          rfl
        · simp [Branches.text, text]
      obtain ⟨⟨items, last⟩, readsItems, whole⟩ := bind_eq_ok_iff.mp readsBranch
      cases whole
      obtain ⟨branch, branchFormed, stops, between, sameBranch⟩ :=
        parseItems_spelt _ readsItems
      have behindBar : middle.rest.length ≤ rest.length := between.rest_le
      by_cases empty : branch = .nil
      · subst empty
        obtain rfl := between.eq_of_nil
        exact emptyBranch_fails stops fails
      · rw [← sameBranch,
          collapse_of_ne_nil (Items.nodes_ne_nil empty _)] at afterBranch
        have failsLater : answer (parseBranches middle) = .error reason :=
          eq_error_of_bind afterBranch fun ⟨_, _⟩ => nofun
        obtain ⟨seen, more, before, branches, formed, text⟩ :=
          parseBranches_fails middle failsLater
        refine
          ⟨_, more, before.behind between.push ?_, .cons branch branches,
            ⟨empty, branchFormed, formed⟩, ?_⟩
        · intro other same failsOther
          exact
            parseBranches_fails_behind empty branchFormed
              (between.push.exchange other) (stops.of_head?_eq same) failsOther
        · rw [Branches.text, text, List.append_assoc]
termination_by start => (start.rest.length, 1)
decreasing_by
  · exact Prod.Lex.left _ _ (Nat.lt_succ_self _)
  · exact Prod.Lex.left _ _ (Nat.lt_succ_of_le behindBar)

/-- Where reading an alternation fails, some alternation begins with what was seen. -/
theorem parseAlternation_fails
    (start : Cursor)
    {reason : PatternError}
    (fails : answer (parseAlternation start) = .error reason) :
    ∃ seen more,
      SeenBefore (fun cursor => answer (parseAlternation cursor))
          start reason seen ∧
        ∃ spelling : Alternation,
          spelling.WellFormed ∧ spelling.text = seen ++ more := by
  have failsInside := fails
  rw [answer_parseAlternation, answer_parseConcatenation,
    bind_eq_error_iff] at failsInside
  rcases failsInside with failsFirst | ⟨⟨first?, middle⟩, readsFirst, afterFirst⟩
  · have failsItems : answer (parseItems start) = .error reason :=
      eq_error_of_bind failsFirst fun ⟨_, _⟩ => nofun
    obtain ⟨seen, more, before, items, nonempty, formed, text, -⟩ :=
      parseItems_fails start failsItems
    refine
      ⟨_, more, before.behind (Between.refl start) ?_,
        .of items .nil, ⟨formed, trivial, by simp⟩, ?_⟩
    · intro other _ failsOther
      rw [List.nil_append, answer_parseAlternation, answer_parseConcatenation,
        failsOther]
      rfl
    · simp [Alternation.text, Branches.text, text]
  obtain ⟨⟨items, last⟩, readsItems, whole⟩ := bind_eq_ok_iff.mp readsFirst
  cases whole
  obtain ⟨first, firstFormed, stops, between, sameFirst⟩ :=
    parseItems_spelt start readsItems
  have behindFirst := between.rest_le
  by_cases bar : middle.rest.head? = some '|'
  · simp only [if_pos bar] at afterFirst
    by_cases empty : first = .nil
    · subst empty
      obtain rfl := between.eq_of_nil
      exact emptyFirst_fails bar fails
    · rw [← sameFirst,
        collapse_of_ne_nil (Items.nodes_ne_nil empty _)] at afterFirst
      have failsFurther : answer (parseBranches middle) = .error reason :=
        eq_error_of_bind afterFirst fun ⟨_, _⟩ => nofun
      obtain ⟨seen, more, before, branches, formed, text⟩ :=
        parseBranches_fails middle failsFurther
      refine
        ⟨_, more, before.behind between ?_, .of first branches,
          ⟨firstFormed, formed, fun _ => empty⟩, ?_⟩
      · intro other same failsOther
        exact
          parseAlternation_fails_behind empty firstFormed
            (between.exchange other) (same.trans bar) failsOther
      · rw [Alternation.text, text, List.append_assoc]
  · simp only [if_neg bar] at afterFirst
    cases afterFirst
termination_by (start.rest.length, 2)
decreasing_by
  · exact Prod.Lex.right _ (by decide)
  · exact Prod.lex_def.mpr
      ((Nat.lt_or_eq_of_le behindFirst).imp_right
        fun same => ⟨same, Nat.lt_succ_self 1⟩)

/-- Where reading an atom fails, some atom begins with what was seen. -/
theorem parseAtom_fails
    (char : Char)
    (rest : List Char)
    (position groups : Nat)
    {reason : PatternError}
    (fails :
      answer (parseAtom char ⟨rest, position, groups⟩) = .error reason) :
    ∃ seen more,
      SeenBefore (fun cursor => answer (parseAtom char cursor))
          ⟨rest, position, groups⟩ reason seen ∧
        ∃ atom : Atom,
          atom.WellFormed ∧ atom.text = char :: (seen ++ more) := by
  by_cases isGroup : char = '('
  · subst isGroup
    rw [answer_parseAtom_group, answer_parseGroup, bind_eq_error_iff] at fails
    rcases fails with failsBody | ⟨⟨body?, middle⟩, readsBody, afterBody⟩
    · obtain ⟨seen, more, before, body, formed, text⟩ :=
        parseAlternation_fails _ failsBody
      refine
        ⟨_, more ++ [')'], before.behind (Between.refl _).ofOpenGroup ?_,
          .group body, formed, ?_⟩
      · intro other _ failsOther
        rw [List.nil_append, answer_parseAtom_group, answer_parseGroup,
          Cursor.openGroup]
        exact bind_eq_error_iff.mpr (Or.inl failsOther)
      · simp [Atom.text, text]
    · obtain ⟨body, formed, ends, between, _⟩ :=
        parseAlternation_spelt _ readsBody
      by_cases closes : middle.rest.head? = some ')'
      · simp only [if_pos closes] at afterBody
        cases afterBody
      · simp only [if_neg closes] at afterBody
        cases afterBody
        have whole : rest = body.text := by
          have shape := between.rest
          rwa [ends.eq_nil closes, List.append_nil] at shape
        exact ⟨_, [')'], .all rfl, .group body, formed, by rw [whole]; rfl⟩
  by_cases isSet : char = '['
  · subst isSet
    rw [answer_parseAtom_set] at fails
    obtain ⟨early, atom, formed, text⟩ := parseSet_fails fails
    exact ⟨_, [']'], .all early, atom, formed, text⟩
  by_cases isEscape : char = '\\'
  · subst isEscape
    rw [answer_parseAtom_escape] at fails
    cases rest with
    | nil =>
        cases fails
        exact ⟨_, ['a'], .all rfl, .escape 'a', trivial, rfl⟩
    | cons escapedChar later => cases fails
  rw [answer_parseAtom_plain isGroup isSet isEscape] at fails
  cases fails
termination_by (rest.length, 3)
decreasing_by
  exact Prod.Lex.right _ (by decide)

theorem parseQuantified_fails
    (char : Char)
    (rest : List Char)
    (position groups : Nat)
    {reason : PatternError}
    (fails :
      answer (parseQuantified char ⟨rest, position, groups⟩) =
        .error reason) :
    ∃ seen more,
      SeenBefore (fun cursor => answer (parseQuantified char cursor))
          ⟨rest, position, groups⟩ reason seen ∧
        ∃ atom : Atom,
          atom.WellFormed ∧ atom.text = char :: (seen ++ more) := by
  have failsAtom :
      answer (parseAtom char ⟨rest, position, groups⟩) = .error reason := by
    rw [answer_parseQuantified] at fails
    exact eq_error_of_bind fails fun ⟨_, _⟩ => nofun
  obtain ⟨seen, more, before, atom, formed, text⟩ :=
    parseAtom_fails char rest position groups failsAtom
  refine
    ⟨seen, more, before.behind (Between.refl _) ?_, atom, formed, text⟩
  intro other _ failsOther
  rw [List.nil_append, answer_parseQuantified]
  exact bind_eq_error_iff.mpr (Or.inl failsOther)
termination_by (rest.length, 4)
decreasing_by
  exact Prod.Lex.right _ (by decide)

end

end Spelling

end LineSearch
