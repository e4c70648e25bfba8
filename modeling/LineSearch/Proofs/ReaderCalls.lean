import LineSearch.Proofs.SpellingRead

namespace LineSearch

/-!
# The calls of the readers

A reader asks other readers, from the cursor it has come to, and the loops over
the items of a concatenation and over the branches of an alternation go on where
the round before has stopped.  `answerFrom` is what a reader makes of the answers
it is given, with nothing recursive in it, and `Asks` says whom it asks.

From each call to those it makes, the characters left become fewer, or they stay
as many and the construct becomes a smaller one.  That alone is why reading ends,
and why only the readers solve their equations.
-/

/-- One call of a reader; an item and an atom begin with the character under the cursor. -/
inductive ReaderCall where
  | alternation (start : Cursor)
  /-- The rounds of an alternation from this cursor on, each from its bar on. -/
  | branches (start : Cursor)
  | concatenation (start : Cursor)
  /-- The rounds of a concatenation from this cursor on. -/
  | items (start : Cursor)
  | quantified (char : Char) (rest : List Char) (position groups : Nat)
  | atom (char : Char) (rest : List Char) (position groups : Nat)
  | group (start : Cursor)
  | set (start : Cursor)
  | escape (start : Cursor)

namespace ReaderCall

open Pattern Spelling

/-- What a reader finds. -/
abbrev Result : ReaderCall → Type
  | .alternation _ | .concatenation _ => Option Node
  | .branches _ | .items _ => List Node
  | .quantified .. | .atom .. | .group _ | .set _ | .escape _ => Node

/-- Where the cursor stands when a reader is called. -/
def start : ReaderCall → Cursor
  | .alternation start | .branches start | .concatenation start
  | .items start | .group start | .set start | .escape start => start
  | .quantified char rest position groups
  | .atom char rest position groups => ⟨char :: rest, position, groups⟩

/-- What the reader finds and where it stops, or why it fails. -/
def answer : (call : ReaderCall) → Except PatternError (call.Result × Cursor)
  | .alternation start => Pattern.answer (parseAlternation start)
  | .branches start => Pattern.answer (parseBranches start)
  | .concatenation start => Pattern.answer (parseConcatenation start)
  | .items start => Pattern.answer (parseItems start)
  | .quantified char rest position groups =>
      Pattern.answer (parseQuantified char ⟨rest, position + 1, groups⟩)
  | .atom char rest position groups =>
      Pattern.answer (parseAtom char ⟨rest, position + 1, groups⟩)
  | .group start => Pattern.answer (parseGroup start)
  | .set start => Pattern.answer (parseSet start)
  | .escape start => Pattern.answer (parseEscape start)

/-- The answers that all readers give, whoever gives them. -/
abbrev Answers := (call : ReaderCall) → Except PatternError (call.Result × Cursor)

/-- What a reader makes of the answers of the readers that it asks. -/
def answerFrom (ask : Answers) : Answers
  | .alternation start => do
      let (first?, next) ← ask (.concatenation start)
      if next.rest.head? = some '|' then
        match first? with
        | none => .error (.emptyAlternative next.position)
        | some first =>
            let (later, last) ← ask (.branches next)
            return (some (.alternation (first :: later)), last)
      else
        return (first?, next)
  | .branches ⟨'|' :: rest, position, groups⟩ => do
      let (branch?, next) ← ask (.concatenation ⟨rest, position + 1, groups⟩)
      match branch? with
      | none =>
          if next.rest = [] then
            .error .incompleteAlternation
          else
            .error (.emptyAlternative next.position)
      | some branch =>
          let (later, last) ← ask (.branches next)
          return (branch :: later, last)
  | .branches start => return ([], start)
  | .concatenation start => do
      let (nodes, next) ← ask (.items start)
      return (collapse nodes, next)
  | .items ⟨[], position, groups⟩ => return ([], ⟨[], position, groups⟩)
  | .items ⟨char :: rest, position, groups⟩ =>
      if char = '|' ∨ char = ')' then
        return ([], ⟨char :: rest, position, groups⟩)
      else do
        let (item, next) ← ask (.quantified char rest position groups)
        let (later, last) ← ask (.items next)
        return (item :: later, last)
  | .quantified char rest position groups => do
      let (node, next) ← ask (.atom char rest position groups)
      return ((quantify node next).value, (quantify node next).next)
  | .atom char rest position groups =>
      let behind : Cursor := ⟨rest, position + 1, groups⟩
      if char = '(' then
        ask (.group behind)
      else if char = '[' then
        ask (.set behind)
      else if char = '\\' then
        ask (.escape behind)
      else
        return (plainNode char, behind)
  | .group start => do
      let (body?, next) ← ask (.alternation start.openGroup)
      if next.rest.head? = some ')' then
        return (.group (start.groups + 1) (body?.getD .empty), next.skip 1)
      else
        .error (.expected ')' next.rest.head? next.position)
  | .set start => Pattern.answer (parseSet start)
  | .escape start => Pattern.answer (parseEscape start)

/-- A reader that is called comes to call another one itself. -/
inductive Asks : ReaderCall → ReaderCall → Prop where
  | firstBranch
      {start : Cursor} :
      Asks (.alternation start) (.concatenation start)
  | furtherBranches
      {start next : Cursor}
      {first : Node} :
      Pattern.answer (parseConcatenation start) = .ok (some first, next) →
      next.rest.head? = some '|' →
      Asks (.alternation start) (.branches next)
  | branch
      {rest : List Char}
      {position groups : Nat} :
      Asks (.branches ⟨'|' :: rest, position, groups⟩)
        (.concatenation ⟨rest, position + 1, groups⟩)
  | laterBranches
      {rest : List Char}
      {position groups : Nat}
      {branch : Node}
      {next : Cursor} :
      Pattern.answer (parseConcatenation ⟨rest, position + 1, groups⟩) =
        .ok (some branch, next) →
      Asks (.branches ⟨'|' :: rest, position, groups⟩) (.branches next)
  | items
      {start : Cursor} :
      Asks (.concatenation start) (.items start)
  | item
      {char : Char}
      {rest : List Char}
      {position groups : Nat} :
      ¬ (char = '|' ∨ char = ')') →
      Asks (.items ⟨char :: rest, position, groups⟩)
        (.quantified char rest position groups)
  | laterItems
      {char : Char}
      {rest : List Char}
      {position groups : Nat}
      {item : Node}
      {next : Cursor} :
      ¬ (char = '|' ∨ char = ')') →
      Pattern.answer (parseQuantified char ⟨rest, position + 1, groups⟩) =
        .ok (item, next) →
      Asks (.items ⟨char :: rest, position, groups⟩) (.items next)
  | atom
      {char : Char}
      {rest : List Char}
      {position groups : Nat} :
      Asks (.quantified char rest position groups)
        (.atom char rest position groups)
  | group
      {rest : List Char}
      {position groups : Nat} :
      Asks (.atom '(' rest position groups)
        (.group ⟨rest, position + 1, groups⟩)
  | set
      {rest : List Char}
      {position groups : Nat} :
      Asks (.atom '[' rest position groups)
        (.set ⟨rest, position + 1, groups⟩)
  | escape
      {rest : List Char}
      {position groups : Nat} :
      Asks (.atom '\\' rest position groups)
        (.escape ⟨rest, position + 1, groups⟩)
  | body
      {start : Cursor} :
      Asks (.group start) (.alternation start.openGroup)

/-- Where no bar stands there are no further branches, and nobody is asked. -/
theorem answerFrom_branches_stop
    {char : Char}
    (noBar : char ≠ '|')
    (ask : Answers)
    (rest : List Char)
    (position groups : Nat) :
    answerFrom ask (.branches ⟨char :: rest, position, groups⟩) =
      .ok ([], ⟨char :: rest, position, groups⟩) := by
  rw [answerFrom]
  · rfl
  · intro _ _ _ same
    cases same
    exact noBar rfl

/-- The readers give the answers that they make of each other's answers. -/
theorem answer_eq_answerFrom (call : ReaderCall) :
    call.answer = answerFrom answer call := by
  cases call with
  | alternation start =>
      refine (answer_parseAlternation start).trans ?_
      rw [answerFrom, answer]
      rcases Pattern.answer (parseConcatenation start) with
        reason | ⟨_ | first, next⟩ <;> rfl
  | branches start =>
      rcases start with ⟨_ | ⟨char, rest⟩, position, groups⟩
      · exact answer_parseBranches_nil position groups
      · by_cases bar : char = '|'
        · subst bar
          refine (answer_parseBranches_bar rest position groups).trans ?_
          rw [answerFrom, answer]
          rcases Pattern.answer (parseConcatenation _) with
            reason | ⟨_ | branch, next⟩ <;> rfl
        · rw [answerFrom_branches_stop bar]
          exact answer_parseBranches_stop bar rest position groups
  | concatenation start => exact answer_parseConcatenation start
  | items start =>
      rcases start with ⟨_ | ⟨char, rest⟩, position, groups⟩
      · exact answer_parseItems_nil position groups
      · rw [answerFrom]
        split
        · next stop => exact answer_parseItems_stop stop rest position groups
        · next goesOn =>
            exact answer_parseItems_cons goesOn rest position groups
  | quantified char rest position groups => exact answer_parseQuantified char _
  | atom char rest position groups =>
      rw [answerFrom]
      split
      · next isGroup => exact isGroup ▸ answer_parseAtom_group _
      split
      · next isSet => exact isSet ▸ answer_parseAtom_set _
      split
      · next isEscape => exact isEscape ▸ answer_parseAtom_escape _
      · next isGroup isSet isEscape =>
          exact answer_parseAtom_plain isGroup isSet isEscape _
  | group start => exact answer_parseGroup start
  | set start => rfl
  | escape start => rfl

/-- What a reader makes of the answers it is given depends on those it asks for only. -/
theorem answerFrom_eq_of_agrees
    {ask : Answers}
    (call : ReaderCall)
    (agrees : ∀ inner, call.Asks inner → ask inner = inner.answer) :
    answerFrom ask call = answerFrom answer call := by
  cases call with
  | alternation start =>
      rw [answerFrom, answerFrom, agrees _ .firstBranch]
      rcases reads : answer (.concatenation start) with
        reason | ⟨_ | first, next⟩
      · rfl
      · rfl
      · by_cases bar : next.rest.head? = some '|'
        · simp only [bind, Except.bind, if_pos bar,
            agrees _ (.furtherBranches reads bar)]
        · simp only [bind, Except.bind, if_neg bar]
  | branches start =>
      rcases start with ⟨_ | ⟨char, rest⟩, position, groups⟩
      · rfl
      · by_cases bar : char = '|'
        · subst bar
          rw [answerFrom, answerFrom, agrees _ .branch]
          rcases reads : answer (.concatenation ⟨rest, position + 1, groups⟩)
            with reason | ⟨_ | branch, next⟩
          · rfl
          · rfl
          · simp only [bind, Except.bind, agrees _ (.laterBranches reads)]
        · rw [answerFrom_branches_stop bar, answerFrom_branches_stop bar]
  | concatenation start =>
      rw [answerFrom, answerFrom, agrees _ .items]
  | items start =>
      rcases start with ⟨_ | ⟨char, rest⟩, position, groups⟩
      · rfl
      · by_cases stop : char = '|' ∨ char = ')'
        · rw [answerFrom, answerFrom, if_pos stop, if_pos stop]
        · rw [answerFrom, answerFrom, if_neg stop, if_neg stop,
            agrees _ (.item stop)]
          rcases reads : answer (.quantified char rest position groups) with
            reason | ⟨item, next⟩
          · rfl
          · simp only [bind, Except.bind, agrees _ (.laterItems stop reads)]
  | quantified char rest position groups =>
      rw [answerFrom, answerFrom, agrees _ .atom]
  | atom char rest position groups =>
      rw [answerFrom, answerFrom]
      split
      · next isGroup => subst isGroup; exact agrees _ .group
      split
      · next isSet => subst isSet; exact agrees _ .set
      split
      · next isEscape => subst isEscape; exact agrees _ .escape
      · rfl
  | group start =>
      rw [answerFrom, answerFrom, agrees _ .body]
  | set start => rfl
  | escape start => rfl

/-- The size of the construct that a reader is for, a larger one being built from smaller ones. -/
def rank : ReaderCall → Nat
  | .atom .. | .set _ | .escape _ => 0
  | .quantified .. => 1
  | .items _ => 2
  | .concatenation _ | .branches _ => 3
  | .alternation _ => 4
  | .group _ => 5

/-- No more characters are left where a reader stops. -/
theorem rest_le_of_answer
    {start next : Cursor}
    {result : Except PatternError (Parsed α start)}
    {value : α}
    (reads : Pattern.answer result = .ok (value, next)) :
    next.rest.length ≤ start.rest.length := by
  cases result with
  | error reason => cases reads
  | ok parsed =>
      cases reads
      exact parsed.rest_le

/-- A call goes down in the characters left, or at as many of them to a smaller construct. -/
theorem Asks.descends
    {outer inner : ReaderCall}
    (asks : outer.Asks inner) :
    inner.start.rest.length < outer.start.rest.length ∨
      inner.start.rest.length = outer.start.rest.length ∧
        inner.rank < outer.rank := by
  cases asks with
  | firstBranch | items | item | atom | body =>
      exact Or.inr ⟨rfl, Nat.lt_succ_self _⟩
  | furtherBranches reads _ =>
      have further := rest_le_of_answer reads
      exact
        (Nat.lt_or_eq_of_le further).imp_right
          fun same => ⟨same, Nat.lt_succ_self _⟩
  | branch | group | set | escape => exact Or.inl (Nat.lt_succ_self _)
  | laterBranches reads | laterItems _ reads =>
      exact Or.inl (Nat.lt_succ_of_le (rest_le_of_answer reads))

/-- No call comes back to itself, and none goes on calling for ever. -/
theorem asks_wellFounded :
    WellFounded fun inner outer : ReaderCall => outer.Asks inner :=
  Subrelation.wf
    (fun asks => Prod.lex_def.mpr asks.descends)
    (InvImage.wf
      (fun call : ReaderCall => (call.start.rest.length, call.rank))
      (Prod.lex Nat.lt_wfRel Nat.lt_wfRel).wf)

/-- Answers that the readers could give, by their equations, are the answers they give. -/
theorem eq_answer_of_solves
    {solution : Answers}
    (solves : ∀ call, solution call = answerFrom solution call)
    (call : ReaderCall) :
    solution call = call.answer := by
  induction call using asks_wellFounded.induction with
  | h call inductionHypothesis =>
      rw [solves call, answerFrom_eq_of_agrees call inductionHypothesis,
        ← answer_eq_answerFrom]

end ReaderCall

end LineSearch
