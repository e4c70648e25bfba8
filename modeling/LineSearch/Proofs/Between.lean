import LineSearch.Pattern.Compile

namespace LineSearch

/-!
# Text between two cursors

A reader that stops further on has read the text between the two cursors.  The
second one knows how long that text is and how many groups were opened in it.
-/

/-- This text, with this many groups in it, lies between two cursors. -/
structure Between
    (start : Cursor)
    (text : List Char)
    (opened : Nat)
    (next : Cursor) : Prop where
  rest : start.rest = text ++ next.rest
  position : next.position = start.position + text.length
  groups : next.groups = start.groups + opened

namespace Between

theorem refl (cursor : Cursor) : Between cursor [] 0 cursor :=
  ⟨rfl, rfl, rfl⟩

theorem char
    (char : Char)
    (rest : List Char)
    (position groups : Nat) :
    Between ⟨char :: rest, position, groups⟩ [char] 0
      ⟨rest, position + 1, groups⟩ :=
  ⟨rfl, rfl, rfl⟩

/-- One steps over the character under the cursor. -/
theorem skip
    {cursor : Cursor}
    {char : Char}
    (here : cursor.rest.head? = some char) :
    Between cursor [char] 0 (cursor.skip 1) := by
  rcases cursor with ⟨_ | ⟨first, later⟩, position, groups⟩
  · cases here
  · cases here
    exact Between.char char later position groups

theorem trans
    {start middle next : Cursor}
    {first second : List Char}
    {opened more : Nat}
    (before : Between start first opened middle)
    (after : Between middle second more next) :
    Between start (first ++ second) (opened + more) next where
  rest := by
    rw [before.rest, after.rest, List.append_assoc]
  position := by
    rw [after.position, before.position, List.length_append, Nat.add_assoc]
  groups := by
    rw [after.groups, before.groups, Nat.add_assoc]

/-- A text in two pieces has a place between them. -/
theorem split
    {start next : Cursor}
    {first second : List Char}
    {opened more : Nat}
    (between : Between start (first ++ second) (opened + more) next) :
    ∃ middle,
      Between start first opened middle ∧
        Between middle second more next := by
  refine
    ⟨⟨second ++ next.rest, start.position + first.length,
      start.groups + opened⟩, ⟨?_, rfl, rfl⟩, ⟨rfl, ?_, ?_⟩⟩
  · rw [between.rest, List.append_assoc]
  · rw [between.position, List.length_append, Nat.add_assoc]
  · rw [between.groups, Nat.add_assoc]

theorem eq_of_nil
    {start next : Cursor}
    (between : Between start [] 0 next) :
    next = start := by
  rcases start with ⟨rest, position, groups⟩
  rcases next with ⟨nextRest, nextPosition, nextGroups⟩
  obtain ⟨sameRest, samePosition, sameGroups⟩ := between
  simp only [List.nil_append, List.length_nil, Nat.add_zero]
    at sameRest samePosition sameGroups
  subst sameRest samePosition sameGroups
  rfl

/-- Behind an opening parenthesis one group is opened already. -/
theorem openGroup
    {start next : Cursor}
    {text : List Char}
    {opened : Nat}
    (between : Between start text (opened + 1) next) :
    Between start.openGroup text opened next where
  rest := between.rest
  position := between.position
  groups := by
    rw [between.groups, Cursor.openGroup, Nat.add_comm opened, Nat.add_assoc]

/-- What begins with a character begins at a cursor in front of it. -/
theorem cons
    {start next : Cursor}
    {first : Char}
    {text : List Char}
    {opened : Nat}
    (between : Between start (first :: text) opened next) :
    start = ⟨first :: (text ++ next.rest), start.position, start.groups⟩ ∧
      Between ⟨text ++ next.rest, start.position + 1, start.groups⟩
        text opened next := by
  rcases start with ⟨rest, position, groups⟩
  obtain ⟨sameRest, samePosition, sameGroups⟩ := between
  simp only [List.length_cons, List.cons_append]
    at sameRest samePosition sameGroups
  subst sameRest
  refine ⟨rfl, rfl, ?_, sameGroups⟩
  rw [samePosition, Nat.add_assoc, Nat.add_comm 1]

theorem rest_le
    {start next : Cursor}
    {text : List Char}
    {opened : Nat}
    (between : Between start text opened next) :
    next.rest.length ≤ start.rest.length := by
  rw [between.rest, List.length_append]
  exact Nat.le_add_left _ _

theorem position_le
    {start next : Cursor}
    {text : List Char}
    {opened : Nat}
    (between : Between start text opened next) :
    start.position ≤ next.position := by
  rw [between.position]
  exact Nat.le_add_right _ _

/-- Where fewer characters are left, the position is further on. -/
theorem position_lt
    {start next : Cursor}
    {text : List Char}
    {opened : Nat}
    (between : Between start text opened next)
    (fewer : next.rest.length < start.rest.length) :
    start.position < next.position := by
  rw [between.rest, List.length_append] at fewer
  rw [between.position]
  omega

/-- A character in front of a text that is read behind it. -/
theorem push
    {char : Char}
    {rest : List Char}
    {position groups : Nat}
    {next : Cursor}
    {text : List Char}
    {opened : Nat}
    (between :
      Between ⟨rest, position + 1, groups⟩ text opened next) :
    Between ⟨char :: rest, position, groups⟩ (char :: text) opened next where
  rest := by
    rw [List.cons_append, ← between.rest]
  position := by
    rw [between.position, List.length_cons, Nat.add_assoc,
      Nat.add_comm 1]
  groups := between.groups

/-- A group counts from its opening parenthesis on. -/
theorem ofOpenGroup
    {start next : Cursor}
    {text : List Char}
    {opened : Nat}
    (between : Between start.openGroup text opened next) :
    Between start text (opened + 1) next where
  rest := between.rest
  position := between.position
  groups := by
    rw [between.groups, Cursor.openGroup, Nat.add_comm opened, Nat.add_assoc]

/-- What does not begin the whole text does not begin its first piece. -/
theorem head?_ne
    {start next : Cursor}
    {text : List Char}
    {opened : Nat}
    {char : Char}
    (between : Between start text opened next)
    (absent : start.rest.head? ≠ some char) :
    text.head? ≠ some char := by
  intro begins
  apply absent
  rw [between.rest, List.head?_append, begins]
  rfl

end Between

end LineSearch
