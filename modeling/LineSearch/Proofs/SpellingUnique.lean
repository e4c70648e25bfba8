import LineSearch.Proofs.Spelling

namespace LineSearch.Spelling

/-!
# No text is spelt in two ways

Two spellings whose texts agree up to a place where both must stop are the same.
An atom ends by itself; items end in front of a bar, a closing parenthesis or
the end of the text; an alternation ends in front of a closing parenthesis or
the end.
-/

/-- No further item can begin here. -/
def Stops (rest : List Char) : Prop :=
  ∀ char, rest.head? = some char → char = '|' ∨ char = ')'

/-- Neither a further item nor a further branch can begin here. -/
def Ends (rest : List Char) : Prop :=
  ∀ char, rest.head? = some char → char = ')'

theorem Ends.stops
    {rest : List Char}
    (ends : Ends rest) :
    Stops rest :=
  fun char begins => Or.inr (ends char begins)

theorem Stops.cons
    {char : Char}
    (rest : List Char)
    (stops : char = '|' ∨ char = ')') :
    Stops (char :: rest) := by
  rintro _ ⟨⟩
  exact stops

theorem Ends.nil :
    Ends [] := by
  rintro _ ⟨⟩

theorem Ends.close (rest : List Char) :
    Ends (')' :: rest) := by
  rintro _ ⟨⟩
  rfl

/-- An atom begins with a character at which items do not stop. -/
theorem Atom.text_eq_cons
    {atom : Atom}
    (wellFormed : atom.WellFormed) :
    ∃ char chars,
      atom.text = char :: chars ∧ char ≠ '|' ∧ char ≠ ')' := by
  cases atom with
  | plain char =>
      simp only [Atom.WellFormed, List.mem_cons, not_or] at wellFormed
      exact ⟨char, [], rfl, wellFormed.1, wellFormed.2.1⟩
  | escape char => exact ⟨_, _, rfl, by decide, by decide⟩
  | set negated members => exact ⟨_, _, rfl, by decide, by decide⟩
  | group body => exact ⟨_, _, rfl, by decide, by decide⟩

/-- Items do not stop at the beginning of an atom. -/
theorem Stops.ne_atom_append
    {rest : List Char}
    (stops : Stops rest)
    {atom : Atom}
    (wellFormed : atom.WellFormed)
    (later : List Char) :
    rest ≠ atom.text ++ later := by
  obtain ⟨char, chars, shape, notBar, notClose⟩ :=
    Atom.text_eq_cons wellFormed
  intro same
  rw [shape] at same
  rcases stops char (by rw [same]; rfl) with isBar | isClose
  · exact notBar isBar
  · exact notClose isClose

/-- A repetition sign is nothing at which items stop. -/
theorem Stops.head?_ne_sign
    {rest : List Char}
    (stops : Stops rest)
    (kind : RepeatKind) :
    rest.head? ≠ some kind.sign := by
  intro begins
  have isStop := stops kind.sign begins
  cases kind <;> simp [RepeatKind.sign] at isStop

/-- Items that begin with no repetition sign keep one away from what is in front of them. -/
theorem head?_append_ne_sign
    {text rest : List Char}
    (free : ∀ kind : RepeatKind, text.head? ≠ some kind.sign)
    (stops : Stops rest)
    (kind : RepeatKind) :
    (text ++ rest).head? ≠ some kind.sign := by
  cases text with
  | nil => exact stops.head?_ne_sign kind
  | cons char chars => exact free kind

/-- Items stop in front of further branches, and behind them where these end. -/
theorem Branches.append_stops
    (branches : Branches)
    {rest : List Char}
    (ends : Ends rest) :
    Stops (branches.text ++ rest) := by
  cases branches with
  | nil => exact ends.stops
  | cons branch later => exact Stops.cons _ (Or.inl rfl)

/-- A set's members end at the first closing bracket. -/
theorem takeWhile_members
    {members : List Char}
    (unclosed : ']' ∉ members)
    (rest : List Char) :
    (members ++ ']' :: rest).takeWhile (· != ']') = members := by
  rw [List.takeWhile_append_of_pos]
  · simp
  · intro char member
    exact bne_iff_ne.mpr fun same => unclosed (same ▸ member)

/-- Members that do not begin with `^` keep one away from the opening bracket. -/
theorem head?_members_ne_caret
    {members : List Char}
    (plain : members.head? ≠ some '^')
    (rest : List Char) :
    (members ++ ']' :: rest).head? ≠ some '^' := by
  cases members with
  | nil => simp
  | cons char chars => exact plain

private theorem members_inj
    {left right rest others : List Char}
    (leftUnclosed : ']' ∉ left)
    (rightUnclosed : ']' ∉ right)
    (same : left ++ ']' :: rest = right ++ ']' :: others) :
    left = right ∧ rest = others := by
  have members : left = right := by
    rw [← takeWhile_members leftUnclosed rest, same,
      takeWhile_members rightUnclosed others]
  subst members
  exact ⟨rfl, List.cons.inj (List.append_cancel_left same) |>.2⟩

private theorem negation_inj
    {left right : Bool}
    {leftTail rightTail : List Char}
    (leftPlain : left = false → leftTail.head? ≠ some '^')
    (rightPlain : right = false → rightTail.head? ≠ some '^')
    (same :
      (if left then ['^'] else []) ++ leftTail =
        (if right then ['^'] else []) ++ rightTail) :
    left = right ∧ leftTail = rightTail := by
  cases left <;> cases right
  · exact ⟨rfl, same⟩
  · exact (leftPlain rfl (by simpa using congrArg List.head? same)).elim
  · exact
      (rightPlain rfl (by simpa using (congrArg List.head? same).symm)).elim
  · exact ⟨rfl, List.cons.inj same |>.2⟩

private theorem kind?_inj
    {left right : Option RepeatKind}
    {leftTail rightTail : List Char}
    (leftFree :
      left = none → ∀ kind : RepeatKind, leftTail.head? ≠ some kind.sign)
    (rightFree :
      right = none → ∀ kind : RepeatKind, rightTail.head? ≠ some kind.sign)
    (same :
      (left.map RepeatKind.sign).toList ++ leftTail =
        (right.map RepeatKind.sign).toList ++ rightTail) :
    left = right ∧ leftTail = rightTail := by
  cases left with
  | none =>
      cases right with
      | none => exact ⟨rfl, same⟩
      | some kind =>
          have begins := congrArg List.head? same
          exact (leftFree rfl kind begins).elim
  | some kind =>
      cases right with
      | none =>
          have begins := congrArg List.head? same
          exact (rightFree rfl kind begins.symm).elim
      | some other =>
          obtain ⟨sameSign, sameTail⟩ := List.cons.inj same
          refine ⟨?_, sameTail⟩
          cases kind <;> cases other <;> first | rfl | cases sameSign

private theorem set_inj
    {left right : Bool}
    {leftMembers rightMembers rest others : List Char}
    (leftFormed : (Atom.set left leftMembers).WellFormed)
    (rightFormed : (Atom.set right rightMembers).WellFormed)
    (same :
      (Atom.set left leftMembers).text ++ rest =
        (Atom.set right rightMembers).text ++ others) :
    Atom.set left leftMembers = Atom.set right rightMembers ∧
      rest = others := by
  obtain ⟨leftUnclosed, leftPlain⟩ := leftFormed
  obtain ⟨rightUnclosed, rightPlain⟩ := rightFormed
  simp only [Atom.text, List.append_assoc, List.cons_append,
    List.cons.injEq, true_and, List.nil_append] at same
  obtain ⟨rfl, sameMembers⟩ :=
    negation_inj
      (fun isPlain => head?_members_ne_caret (leftPlain isPlain) rest)
      (fun isPlain => head?_members_ne_caret (rightPlain isPlain) others)
      same
  obtain ⟨rfl, sameRest⟩ :=
    members_inj leftUnclosed rightUnclosed sameMembers
  exact ⟨rfl, sameRest⟩

mutual

/-- An atom ends by itself. -/
theorem Atom.text_inj
    {rest others : List Char} :
    (left right : Atom) →
    left.WellFormed →
    right.WellFormed →
    left.text ++ rest = right.text ++ others →
    left = right ∧ rest = others
  | .plain char, .plain other, _, _, same => by
      obtain ⟨rfl, sameRest⟩ := List.cons.inj same
      exact ⟨rfl, sameRest⟩
  | .escape char, .escape other, _, _, same => by
      obtain ⟨_, sameTail⟩ := List.cons.inj same
      obtain ⟨rfl, sameRest⟩ := List.cons.inj sameTail
      exact ⟨rfl, sameRest⟩
  | .set _ _, .set _ _, leftFormed, rightFormed, same =>
      set_inj leftFormed rightFormed same
  | .group body, .group other, leftFormed, rightFormed, same => by
      simp only [Atom.text, List.append_assoc, List.cons_append,
        List.cons.injEq, true_and, List.nil_append] at same
      obtain ⟨rfl, sameClose⟩ :=
        Alternation.text_inj body other leftFormed rightFormed
          (Ends.close rest) (Ends.close others) same
      exact ⟨rfl, List.cons.inj sameClose |>.2⟩
  | .plain char, .escape _, formed, _, same
  | .plain char, .set _ _, formed, _, same
  | .plain char, .group _, formed, _, same => by
      obtain ⟨rfl, _⟩ := List.cons.inj same
      simp [Atom.WellFormed] at formed
  | .escape _, .plain char, _, formed, same
  | .set _ _, .plain char, _, formed, same
  | .group _, .plain char, _, formed, same => by
      obtain ⟨rfl, _⟩ := List.cons.inj same
      simp [Atom.WellFormed] at formed
  | .escape _, .set _ _, _, _, same
  | .escape _, .group _, _, _, same
  | .set _ _, .escape _, _, _, same
  | .set _ _, .group _, _, _, same
  | .group _, .escape _, _, _, same
  | .group _, .set _ _, _, _, same => by
      cases (List.cons.inj same).1

theorem Items.text_inj
    {rest others : List Char}
    (stops : Stops rest)
    (othersStop : Stops others) :
    (left right : Items) →
    left.WellFormed →
    right.WellFormed →
    left.text ++ rest = right.text ++ others →
    left = right ∧ rest = others
  | .nil, .nil, _, _, same => ⟨rfl, same⟩
  | .nil, .cons atom _ _, _, formed, same => by
      simp only [Items.text, List.append_assoc] at same
      exact (stops.ne_atom_append formed.1 _ same).elim
  | .cons atom _ _, .nil, formed, _, same => by
      simp only [Items.text, List.append_assoc] at same
      exact (othersStop.ne_atom_append formed.1 _ same.symm).elim
  | .cons atom kind? later, .cons other otherKind? otherLater,
      leftFormed, rightFormed, same => by
      obtain ⟨atomFormed, laterFormed, free⟩ := leftFormed
      obtain ⟨otherFormed, otherLaterFormed, otherFree⟩ := rightFormed
      simp only [Items.text, List.append_assoc] at same
      obtain ⟨rfl, sameSigns⟩ :=
        Atom.text_inj atom other atomFormed otherFormed same
      obtain ⟨rfl, sameLater⟩ :=
        kind?_inj
          (fun unrepeated => head?_append_ne_sign (free unrepeated) stops)
          (fun unrepeated =>
            head?_append_ne_sign (otherFree unrepeated) othersStop)
          sameSigns
      obtain ⟨rfl, sameRest⟩ :=
        Items.text_inj stops othersStop later otherLater
          laterFormed otherLaterFormed sameLater
      exact ⟨rfl, sameRest⟩

theorem Branches.text_inj
    {rest others : List Char}
    (ends : Ends rest)
    (othersEnd : Ends others) :
    (left right : Branches) →
    left.WellFormed →
    right.WellFormed →
    left.text ++ rest = right.text ++ others →
    left = right ∧ rest = others
  | .nil, .nil, _, _, same => ⟨rfl, same⟩
  | .nil, .cons _ _, _, _, same => by
      cases ends '|' (congrArg List.head? same)
  | .cons _ _, .nil, _, _, same => by
      cases othersEnd '|' (congrArg List.head? same).symm
  | .cons branch later, .cons other otherLater,
      leftFormed, rightFormed, same => by
      simp only [Branches.text, List.append_assoc, List.cons_append,
        List.cons.injEq, true_and] at same
      obtain ⟨rfl, sameLater⟩ :=
        Items.text_inj (later.append_stops ends)
          (otherLater.append_stops othersEnd) branch other
          leftFormed.2.1 rightFormed.2.1 same
      obtain ⟨rfl, sameRest⟩ :=
        Branches.text_inj ends othersEnd later otherLater
          leftFormed.2.2 rightFormed.2.2 sameLater
      exact ⟨rfl, sameRest⟩

theorem Alternation.text_inj
    {rest others : List Char} :
    (left right : Alternation) →
    left.WellFormed →
    right.WellFormed →
    Ends rest →
    Ends others →
    left.text ++ rest = right.text ++ others →
    left = right ∧ rest = others
  | .of first further, .of other otherFurther,
      leftFormed, rightFormed, ends, othersEnd, same => by
      simp only [Alternation.text, List.append_assoc] at same
      obtain ⟨rfl, sameFurther⟩ :=
        Items.text_inj (further.append_stops ends)
          (otherFurther.append_stops othersEnd) first other
          leftFormed.1 rightFormed.1 same
      obtain ⟨rfl, sameRest⟩ :=
        Branches.text_inj ends othersEnd further otherFurther
          leftFormed.2.1 rightFormed.2.1 sameFurther
      exact ⟨rfl, sameRest⟩

end

/-- A text is spelt in one way at most. -/
theorem Alternation.Spells.unique
    {spelling other : Alternation}
    {text : String}
    (spells : spelling.Spells text)
    (otherSpells : other.Spells text) :
    spelling = other := by
  have same : spelling.text ++ [] = other.text ++ [] := by
    rw [spells.2, otherSpells.2]
  exact
    (Alternation.text_inj spelling other spells.1 otherSpells.1
      Ends.nil Ends.nil same).1

end LineSearch.Spelling
