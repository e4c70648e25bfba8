import LineSearch.Proofs.Between
import LineSearch.Proofs.Reading
import LineSearch.Proofs.SpellingUnique

namespace LineSearch

/-!
# What is spelt is read

Every reader, put in front of the text of a well-formed spelling, reads the tree
of that spelling and stops behind the text, provided that what stands there
cannot belong to it.
-/

namespace RepeatKind

/-- A character asks for a repetition when it is that repetition's sign. -/
theorem ofChar?_eq_some_iff
    {char : Char}
    {kind : RepeatKind} :
    ofChar? char = some kind ↔ char = kind.sign := by
  constructor
  · intro asks
    unfold ofChar? at asks
    split at asks <;> cases asks <;> rfl
  · rintro rfl
    cases kind <;> rfl

end RepeatKind

namespace Spelling

open Pattern

/-- A digit other than zero is one of nine characters. -/
private theorem mem_of_isDigit
    {char : Char}
    (isDigit : (char.isDigit && char != '0') = true) :
    char ∈ ['1', '2', '3', '4', '5', '6', '7', '8', '9'] := by
  rw [Bool.and_eq_true, bne_iff_ne] at isDigit
  obtain ⟨digit, notZero⟩ := isDigit
  have ofNat {code : Nat} (same : char.toNat = code) :
      char = Char.ofNat code := by
    rw [← same, Char.ofNat_toNat]
  have bounds : 48 ≤ char.toNat ∧ char.toNat ≤ 57 := by
    simpa [Char.isDigit, UInt32.le_iff_toNat_le] using digit
  have codes :
      char.toNat = 48 ∨ char.toNat = 49 ∨ char.toNat = 50 ∨
        char.toNat = 51 ∨ char.toNat = 52 ∨ char.toNat = 53 ∨
        char.toNat = 54 ∨ char.toNat = 55 ∨ char.toNat = 56 ∨
        char.toNat = 57 := by
    omega
  rcases codes with
    code | code | code | code | code | code | code | code | code | code
  · exact (notZero (ofNat code)).elim
  all_goals
    rw [ofNat code]
    decide

/-- Behind a backslash the reader and the grammar agree on every character. -/
theorem escaped_eq_escapeNode (char : Char) :
    escaped char = escapeNode char := by
  unfold escapeNode
  split
  all_goals try rfl
  have noClass : CharClass.ofLetter? char = none := by
    unfold CharClass.ofLetter?
    split
    all_goals first | rfl | contradiction
  have noDigit : (char.isDigit && char != '0') = false := by
    rw [Bool.eq_false_iff]
    intro isDigit
    have member := mem_of_isDigit isDigit
    simp_all
  unfold escaped
  simp only [noClass, noDigit]
  rfl

theorem answer_parseAtom_plain
    {char : Char}
    (noGroup : char ≠ '(')
    (noSet : char ≠ '[')
    (noEscape : char ≠ '\\')
    (cursor : Cursor) :
    answer (parseAtom char cursor) = .ok (plainNode char, cursor) := by
  by_cases isDot : char = '.'
  · subst isDot
    rw [parseAtom]
    rfl
  by_cases isStart : char = '^'
  · subst isStart
    rw [parseAtom]
    rfl
  by_cases isEnd : char = '$'
  · subst isEnd
    rw [parseAtom]
    rfl
  have node : plainNode char = .literal char := by
    unfold plainNode
    split
    · exact (isDot rfl).elim
    · exact (isStart rfl).elim
    · exact (isEnd rfl).elim
    · rfl
  rw [node, parseAtom]
  · rfl
  · exact noGroup
  · exact noSet
  · exact noEscape
  · exact isDot
  · exact isStart
  · exact isEnd

/-- Members in front of their closing bracket are read as they are. -/
theorem membersAnswer_eq
    (negated : Bool)
    (opening : Nat)
    {members : List Char}
    (unclosed : ']' ∉ members)
    {start next : Cursor}
    (between : Between start (members ++ [']']) 0 next) :
    membersAnswer negated opening start =
      .ok (.set ⟨members.eraseDups, negated⟩, next) := by
  rcases start with ⟨rest, position, groups⟩
  rcases next with ⟨later, nextPosition, nextGroups⟩
  obtain ⟨sameRest, samePosition, sameGroups⟩ := between
  simp only [List.append_assoc, List.cons_append, List.nil_append,
    List.length_append, List.length_cons, List.length_nil, Nat.add_zero,
    Nat.zero_add] at sameRest samePosition sameGroups
  subst sameRest samePosition sameGroups
  have taken := takeWhile_members unclosed later
  have more : members.length < (members ++ ']' :: later).length := by
    rw [List.length_append, List.length_cons]
    exact Nat.lt_add_of_pos_right (Nat.succ_pos _)
  have left : (members ++ ']' :: later).drop (members.length + 1) = later := by
    rw [← List.drop_drop, List.drop_left]
    rfl
  simp only [membersAnswer, taken, if_pos more, Cursor.skip, left]

theorem parseSet_eq
    {negated : Bool}
    {members : List Char}
    (wellFormed : (Atom.set negated members).WellFormed)
    {start next : Cursor}
    (between :
      Between start
        ((if negated then ['^'] else []) ++ members ++ [']']) 0 next) :
    answer (parseSet start) =
      .ok (.set ⟨members.eraseDups, negated⟩, next) := by
  obtain ⟨unclosed, plain⟩ := wellFormed
  rw [answer_parseSet]
  cases negated with
  | true =>
      obtain ⟨shape, behind⟩ := between.cons
      rw [shape]
      exact membersAnswer_eq true _ unclosed behind
  | false =>
      have noCaret : start.rest.head? ≠ some '^' := by
        rw [between.rest]
        simpa using head?_members_ne_caret (plain rfl) next.rest
      rw [if_neg noCaret]
      exact membersAnswer_eq false _ unclosed between

/-- A repetition sign belongs to the atom in front of it. -/
theorem quantify_eq
    (node : Node)
    {kind? : Option RepeatKind}
    {start next : Cursor}
    (between : Between start (kind?.map RepeatKind.sign).toList 0 next)
    (free :
      kind? = none → ∀ kind : RepeatKind, next.rest.head? ≠ some kind.sign) :
    ((quantify node start).value, (quantify node start).next) =
      (repeated node kind?, next) := by
  cases kind? with
  | none =>
      have same : next = start := between.eq_of_nil
      subst same
      have noSign : next.rest.head?.bind RepeatKind.ofChar? = none := by
        rw [Option.bind_eq_none_iff]
        intro char begins
        rw [Option.eq_none_iff_forall_ne_some]
        intro kind asks
        rw [RepeatKind.ofChar?_eq_some_iff.mp asks] at begins
        exact free rfl kind begins
      unfold quantify
      rw [noSign]
      rfl
  | some kind =>
      obtain ⟨shape, behind⟩ := between.cons
      have same := behind.eq_of_nil
      have sign :
          start.rest.head?.bind RepeatKind.ofChar? = some kind := by
        rw [shape]
        exact RepeatKind.ofChar?_eq_some_iff.mpr rfl
      unfold quantify
      rw [sign, same, shape]
      rfl

/-- The collapse of items that are some is the tree that stands for them. -/
theorem collapse_of_ne_nil
    {items : List Node}
    (nonempty : items ≠ []) :
    collapse items = some (chained items) := by
  match items with
  | [] => exact (nonempty rfl).elim
  | [_] => rfl
  | _ :: _ :: _ => rfl

theorem collapse_getD (items : List Node) :
    (collapse items).getD .empty = chained items := by
  match items with
  | [] => rfl
  | [_] => rfl
  | _ :: _ :: _ => rfl

theorem Items.nodes_ne_nil
    {items : Items}
    (nonempty : items ≠ .nil)
    (opened : Nat) :
    items.nodes opened ≠ [] := by
  cases items with
  | nil => exact (nonempty rfl).elim
  | cons atom kind? rest => simp [Items.nodes]

mutual

theorem Atom.read
    {start next : Cursor} :
    (atom : Atom) →
    atom.WellFormed →
    Between start atom.text atom.groups next →
    ∃ char rest,
      start = ⟨char :: rest, start.position, start.groups⟩ ∧
        answer (parseAtom char ⟨rest, start.position + 1, start.groups⟩) =
          .ok (atom.node start.groups, next)
  | .plain char, formed, between => by
      simp only [Atom.WellFormed, List.mem_cons, List.not_mem_nil, or_false,
        not_or] at formed
      obtain ⟨-, -, noGroup, noSet, noEscape⟩ := formed
      obtain ⟨shape, behind⟩ := between.cons
      refine ⟨char, next.rest, shape, ?_⟩
      rw [answer_parseAtom_plain noGroup noSet noEscape, behind.eq_of_nil]
      rfl
  | .escape char, _, between => by
      obtain ⟨shape, behind⟩ := between.cons
      obtain ⟨_, last⟩ := behind.cons
      refine ⟨'\\', char :: next.rest, shape, ?_⟩
      rw [answer_parseAtom_escape, answer_parseEscape_cons,
        escaped_eq_escapeNode, last.eq_of_nil]
      rfl
  | .set negated members, formed, between => by
      obtain ⟨shape, behind⟩ := between.cons
      refine ⟨'[', _, shape, ?_⟩
      rw [answer_parseAtom_set, parseSet_eq formed behind]
      rfl
  | .group body, formed, between => by
      obtain ⟨shape, behind⟩ := between.cons
      have opened :
          Between _ (body.text ++ [')']) (body.groups + 0) next :=
        behind.openGroup
      obtain ⟨middle, inside, close⟩ := opened.split
      obtain ⟨closes, last⟩ := close.cons
      have ends : Ends middle.rest := by
        rw [closes]
        exact Ends.close _
      obtain ⟨value?, reads, same⟩ := Alternation.read body formed ends inside
      refine ⟨'(', _, shape, ?_⟩
      rw [answer_parseAtom_group, answer_parseGroup, reads]
      simp only [bind, Except.bind]
      rw [closes, last.eq_of_nil]
      simp only [List.head?_cons, ↓reduceIte, same]
      rfl

theorem Items.read
    {start next : Cursor} :
    (items : Items) →
    items.WellFormed →
    Stops next.rest →
    Between start items.text items.groups next →
    answer (parseItems start) = .ok (items.nodes start.groups, next)
  | .nil, _, stops, between => by
      have same : next = start := between.eq_of_nil
      subst same
      rcases next with ⟨_ | ⟨char, rest⟩, position, groups⟩
      · exact answer_parseItems_nil position groups
      · exact answer_parseItems_stop (stops char rfl) rest position groups
  | .cons atom kind? later, formed, stops, between => by
      obtain ⟨atomFormed, laterFormed, free⟩ := formed
      obtain ⟨behindItem, item, laterBetween⟩ := between.split
      have signed :
          Between start (atom.text ++ (kind?.map RepeatKind.sign).toList)
            (atom.groups + 0) behindItem :=
        item
      obtain ⟨behindAtom, atomBetween, sign⟩ := signed.split
      obtain ⟨char, rest, shape, reads⟩ :=
        Atom.read atom atomFormed atomBetween
      have goesOn : ¬ (char = '|' ∨ char = ')') := by
        intro stop
        refine (Stops.cons rest stop).ne_atom_append atomFormed
          behindAtom.rest ?_
        rw [← atomBetween.rest, shape]
      have noSign :
          kind? = none →
            ∀ kind : RepeatKind,
              behindItem.rest.head? ≠ some kind.sign := by
        intro unrepeated
        rw [laterBetween.rest]
        exact head?_append_ne_sign (free unrepeated) stops
      have quantified := quantify_eq (atom.node start.groups) sign noSign
      have readLater := Items.read later laterFormed stops laterBetween
      obtain ⟨sameItem, sameNext⟩ := Prod.mk.inj quantified
      rw [shape, answer_parseItems_cons goesOn, answer_parseQuantified, reads]
      simp only [bind, Except.bind, pure, Except.pure, sameItem, sameNext,
        readLater, item.groups]
      rfl

theorem Branches.read
    {start next : Cursor} :
    (branches : Branches) →
    branches.WellFormed →
    Ends next.rest →
    Between start branches.text branches.groups next →
    answer (parseBranches start) = .ok (branches.nodes start.groups, next)
  | .nil, _, ends, between => by
      have same : next = start := between.eq_of_nil
      subst same
      rcases next with ⟨_ | ⟨char, rest⟩, position, groups⟩
      · exact answer_parseBranches_nil position groups
      · have noBar : char ≠ '|' := by
          rw [ends char rfl]
          decide
        exact answer_parseBranches_stop noBar rest position groups
  | .cons branch later, formed, ends, between => by
      obtain ⟨nonempty, branchFormed, laterFormed⟩ := formed
      obtain ⟨shape, behind⟩ := between.cons
      obtain ⟨middle, branchBetween, laterBetween⟩ := behind.split
      have stops : Stops middle.rest := by
        rw [laterBetween.rest]
        exact later.append_stops ends
      have readBranch := Items.read branch branchFormed stops branchBetween
      have readLater := Branches.read later laterFormed ends laterBetween
      rw [shape, answer_parseBranches_bar, answer_parseConcatenation,
        readBranch]
      simp only [bind, Except.bind, pure, Except.pure,
        collapse_of_ne_nil (Items.nodes_ne_nil nonempty _), readLater,
        branchBetween.groups]
      rfl

theorem Alternation.read
    {start next : Cursor} :
    (spelling : Alternation) →
    spelling.WellFormed →
    Ends next.rest →
    Between start spelling.text spelling.groups next →
    ∃ value?,
      answer (parseAlternation start) = .ok (value?, next) ∧
        value?.getD .empty = spelling.node start.groups
  | .of first further, formed, ends, between => by
      obtain ⟨firstFormed, furtherFormed, nonempty⟩ := formed
      obtain ⟨middle, firstBetween, furtherBetween⟩ := between.split
      have stops : Stops middle.rest := by
        rw [furtherBetween.rest]
        exact further.append_stops ends
      have readFirst := Items.read first firstFormed stops firstBetween
      have readFurther :=
        Branches.read further furtherFormed ends furtherBetween
      rw [answer_parseAlternation, answer_parseConcatenation, readFirst]
      simp only [bind, Except.bind, pure, Except.pure]
      cases further with
      | nil =>
          have same : next = middle := furtherBetween.eq_of_nil
          subst same
          have noBar : next.rest.head? ≠ some '|' := by
            intro begins
            cases ends '|' begins
          rw [if_neg noBar]
          exact ⟨_, rfl, collapse_getD _⟩
      | cons branch later =>
          have bar : middle.rest.head? = some '|' := by
            rw [furtherBetween.rest]
            rfl
          have collapsed :=
            collapse_of_ne_nil
              (Items.nodes_ne_nil (nonempty (by simp)) start.groups)
          simp only [if_pos bar, collapsed, readFurther, firstBetween.groups]
          exact ⟨_, rfl, rfl⟩

end

end Spelling

end LineSearch
