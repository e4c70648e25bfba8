import LineSearch.Pattern.Compile

namespace LineSearch.Pattern

/-!
# What the readers of a pattern text answer

Each reader returns, with the cursor it stops at, the proof that it has not gone
back; the recursion needs it and the answer does not.  `answer` forgets that
proof.  The equations below give each reader's answer from the answers of the
readers it calls, with the errors, and no proof about reading has to open a
reader again.
-/

/-- What was read and the cursor behind it, or why reading failed. -/
def answer
    {start : Cursor}
    (result : Except PatternError (Parsed α start)) :
    Except PatternError (α × Cursor) :=
  result.map fun parsed => (parsed.value, parsed.next)

@[simp] theorem answer_ok
    {start : Cursor}
    (parsed : Parsed α start) :
    answer (.ok parsed) = .ok (parsed.value, parsed.next) :=
  rfl

@[simp] theorem answer_error
    {start : Cursor}
    (reason : PatternError) :
    answer (.error reason : Except PatternError (Parsed α start)) =
      .error reason :=
  rfl

/-- Behind something that was read, whatever is read next. -/
theorem bind_eq_ok_iff
    {first : Except PatternError α}
    {next : α → Except PatternError β}
    {value : β} :
    first >>= next = .ok value ↔
      ∃ middle, first = .ok middle ∧ next middle = .ok value := by
  cases first with
  | error reason => simp [bind, Except.bind]
  | ok middle => simp [bind, Except.bind]

theorem answer_parseItems_nil (position groups : Nat) :
    answer (parseItems ⟨[], position, groups⟩) =
      .ok ([], ⟨[], position, groups⟩) := by
  rw [parseItems, answer_ok]

theorem answer_parseItems_stop
    {char : Char}
    (stops : char = '|' ∨ char = ')')
    (rest : List Char)
    (position groups : Nat) :
    answer (parseItems ⟨char :: rest, position, groups⟩) =
      .ok ([], ⟨char :: rest, position, groups⟩) := by
  rw [parseItems, if_pos stops, answer_ok]

theorem answer_parseItems_cons
    {char : Char}
    (goesOn : ¬ (char = '|' ∨ char = ')'))
    (rest : List Char)
    (position groups : Nat) :
    answer (parseItems ⟨char :: rest, position, groups⟩) = do
      let (item, next) ←
        answer (parseQuantified char ⟨rest, position + 1, groups⟩)
      let (items, last) ← answer (parseItems next)
      return (item :: items, last) := by
  rw [parseItems, if_neg goesOn]
  cases parseQuantified char ⟨rest, position + 1, groups⟩ with
  | error reason => rfl
  | ok parsed =>
      rcases parsed with ⟨item, next, bound⟩
      simp only [answer_ok, bind, Except.bind]
      cases parseItems next <;> rfl

theorem answer_parseConcatenation (cursor : Cursor) :
    answer (parseConcatenation cursor) = do
      let (items, next) ← answer (parseItems cursor)
      return (collapse items, next) := by
  rw [parseConcatenation]
  cases parseItems cursor <;> rfl

theorem answer_parseBranches_nil (position groups : Nat) :
    answer (parseBranches ⟨[], position, groups⟩) =
      .ok ([], ⟨[], position, groups⟩) := by
  rw [parseBranches, answer_ok]

theorem answer_parseBranches_stop
    {char : Char}
    (noBar : char ≠ '|')
    (rest : List Char)
    (position groups : Nat) :
    answer (parseBranches ⟨char :: rest, position, groups⟩) =
      .ok ([], ⟨char :: rest, position, groups⟩) := by
  rw [parseBranches, if_neg noBar, answer_ok]

/-- A bar has to be followed by a branch. -/
theorem answer_parseBranches_bar
    (rest : List Char)
    (position groups : Nat) :
    answer (parseBranches ⟨'|' :: rest, position, groups⟩) = do
      let (branch?, next) ←
        answer (parseConcatenation ⟨rest, position + 1, groups⟩)
      match branch? with
      | none =>
          if next.rest = [] then
            .error .incompleteAlternation
          else
            .error (.emptyAlternative next.position)
      | some branch =>
          let (branches, last) ← answer (parseBranches next)
          return (branch :: branches, last) := by
  rw [parseBranches, if_pos rfl]
  cases parseConcatenation ⟨rest, position + 1, groups⟩ with
  | error reason => rfl
  | ok parsed =>
      rcases parsed with ⟨_ | branch, next, bound⟩
      · simp only [answer_ok, bind, Except.bind]
        split <;> rfl
      · simp only [answer_ok, bind, Except.bind]
        cases parseBranches next <;> rfl

theorem answer_parseAlternation (cursor : Cursor) :
    answer (parseAlternation cursor) = do
      let (first?, next) ← answer (parseConcatenation cursor)
      if next.rest.head? = some '|' then
        match first? with
        | none => .error (.emptyAlternative next.position)
        | some first =>
            let (branches, last) ← answer (parseBranches next)
            return (some (.alternation (first :: branches)), last)
      else
        return (first?, next) := by
  rw [parseAlternation]
  cases parseConcatenation cursor with
  | error reason => rfl
  | ok parsed =>
      rcases parsed with ⟨first?, next, bound⟩
      simp only [answer_ok, bind, Except.bind]
      split
      · cases first? with
        | none => rfl
        | some first =>
            simp only
            cases parseBranches next <;> rfl
      · rfl

/-- A group's body has to be followed by a closing parenthesis. -/
theorem answer_parseGroup (cursor : Cursor) :
    answer (parseGroup cursor) = (do
      let (body?, next) ← answer (parseAlternation cursor.openGroup)
      if next.rest.head? = some ')' then
        return (.group (cursor.groups + 1) (body?.getD .empty), next.skip 1)
      else
        .error (.expected ')' next.rest.head? next.position)) := by
  rw [parseGroup]
  cases parseAlternation cursor.openGroup with
  | error reason => rfl
  | ok parsed =>
      rcases parsed with ⟨body?, next, bound⟩
      simp only [answer_ok, bind, Except.bind, expect]
      by_cases closes : next.rest.head? = some ')'
      · simp only [closes, ↓reduceIte]
        rfl
      · simp only [closes, ↓reduceIte]
        rfl

/-- Only groups, sets and escapes reach beyond their first character. -/
theorem answer_parseAtom_group (cursor : Cursor) :
    answer (parseAtom '(' cursor) = answer (parseGroup cursor) := by
  rw [parseAtom]

theorem answer_parseAtom_set (cursor : Cursor) :
    answer (parseAtom '[' cursor) = answer (parseSet cursor) := by
  rw [parseAtom]

theorem answer_parseAtom_escape (cursor : Cursor) :
    answer (parseAtom '\\' cursor) = answer (parseEscape cursor) := by
  rw [parseAtom]

/-- The answer to a set from behind all that opens it. -/
def membersAnswer
    (negated : Bool)
    (opening : Nat)
    (cursor : Cursor) :
    Except PatternError (Node × Cursor) :=
  let members := cursor.rest.takeWhile (· != ']')
  if members.length < cursor.rest.length then
    .ok (.set ⟨members.eraseDups, negated⟩, cursor.skip (members.length + 1))
  else
    .error (.unclosedSet opening)

theorem answer_parseSet (cursor : Cursor) :
    answer (parseSet cursor) =
      if cursor.rest.head? = some '^' then
        membersAnswer true (cursor.position - 1) (cursor.skip 1)
      else
        membersAnswer false (cursor.position - 1) cursor := by
  unfold parseSet membersAnswer
  by_cases negated : cursor.rest.head? = some '^'
  · simp only [negated, beq_self_eq_true, ↓reduceIte]
    split <;> rfl
  · have plain : (cursor.rest.head? == some '^') = false :=
      beq_eq_false_iff_ne.mpr negated
    simp only [negated, plain, ↓reduceIte, Bool.false_eq_true]
    split <;> rfl

theorem answer_parseEscape_cons
    (char : Char)
    (rest : List Char)
    (position groups : Nat) :
    answer (parseEscape ⟨char :: rest, position, groups⟩) =
      .ok (escaped char, ⟨rest, position + 1, groups⟩) :=
  rfl

theorem answer_parseQuantified
    (char : Char)
    (cursor : Cursor) :
    answer (parseQuantified char cursor) = do
      let (atom, next) ← answer (parseAtom char cursor)
      return ((quantify atom next).value, (quantify atom next).next) := by
  rw [parseQuantified]
  cases parseAtom char cursor <;> rfl

end LineSearch.Pattern
