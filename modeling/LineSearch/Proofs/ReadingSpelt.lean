import LineSearch.Proofs.SpellingRead

namespace LineSearch

/-!
# What is read is spelt

Whatever a reader answers is the tree of a well-formed spelling of the text that
it read, and what is left behind that text cannot belong to it.
-/

namespace Spelling

open Pattern

theorem quantify_spelt
    (node : Node)
    (cursor : Cursor) :
    ∃ kind? : Option RepeatKind,
      (quantify node cursor).value = repeated node kind? ∧
        Between cursor (kind?.map RepeatKind.sign).toList 0
          (quantify node cursor).next ∧
        (kind? = none →
          ∀ kind : RepeatKind,
            (quantify node cursor).next.rest.head? ≠ some kind.sign) := by
  unfold quantify
  cases asks : cursor.rest.head?.bind RepeatKind.ofChar? with
  | none =>
      refine ⟨none, rfl, Between.refl cursor, ?_⟩
      intro _ kind begins
      have noKind : RepeatKind.ofChar? kind.sign = none := by
        simpa [begins] using asks
      have asksKind := RepeatKind.ofChar?_eq_some_iff.mpr (rfl : kind.sign = _)
      rw [noKind] at asksKind
      cases asksKind
  | some kind =>
      refine ⟨some kind, rfl, ?_, by simp⟩
      rcases cursor with ⟨_ | ⟨char, rest⟩, position, groups⟩
      · simp at asks
      · have same : char = kind.sign :=
          RepeatKind.ofChar?_eq_some_iff.mp asks
        subst same
        exact Between.char _ rest position groups

/-- Where not all of a text belongs to a set, a bracket closes it. -/
private theorem takeWhile_append_close
    {rest : List Char}
    (closed : (rest.takeWhile (· != ']')).length < rest.length) :
    rest =
      rest.takeWhile (· != ']') ++
        ']' :: rest.drop ((rest.takeWhile (· != ']')).length + 1) := by
  induction rest with
  | nil => cases closed
  | cons char later inductionHypothesis =>
      by_cases closes : char = ']'
      · subst closes
        rfl
      · have taken :
            (char :: later).takeWhile (· != ']') =
              char :: later.takeWhile (· != ']') :=
          List.takeWhile_cons_of_pos (bne_iff_ne.mpr closes)
        rw [taken] at closed ⊢
        exact
          congrArg (char :: ·)
            (inductionHypothesis (Nat.lt_of_succ_lt_succ closed))

/-- Members are read up to the first closing bracket. -/
theorem membersAnswer_spelt
    {negated : Bool}
    {opening : Nat}
    {start next : Cursor}
    {node : Node}
    (reads : membersAnswer negated opening start = .ok (node, next)) :
    ∃ members,
      ']' ∉ members ∧
        Between start (members ++ [']']) 0 next ∧
        node = .set ⟨members.eraseDups, negated⟩ := by
  unfold membersAnswer at reads
  simp only at reads
  split at reads
  · rename_i closed
    obtain ⟨rfl, rfl⟩ := Prod.mk.inj (Except.ok.inj reads)
    have whole := takeWhile_append_close closed
    refine ⟨_, ?_, ⟨?_, ?_, rfl⟩, rfl⟩
    · intro member
      have stays := List.all_eq_true.mp List.all_takeWhile _ member
      simp at stays
    · rw [List.append_assoc]
      exact whole
    · rw [List.length_append]
      rfl
  · cases reads

theorem parseSet_spelt
    {start next : Cursor}
    {node : Node}
    (reads : answer (parseSet start) = .ok (node, next)) :
    ∃ negated members,
      (Atom.set negated members).WellFormed ∧
        Between start
          ((if negated then ['^'] else []) ++ members ++ [']']) 0 next ∧
        node = .set ⟨members.eraseDups, negated⟩ := by
  rw [answer_parseSet] at reads
  split at reads
  · rename_i begins
    obtain ⟨members, unclosed, between, same⟩ := membersAnswer_spelt reads
    refine ⟨true, members, ⟨unclosed, by simp⟩, ?_, same⟩
    rcases start with ⟨_ | ⟨char, rest⟩, position, groups⟩
    · cases begins
    · cases begins
      exact between.push
  · rename_i plain
    obtain ⟨members, unclosed, between, same⟩ := membersAnswer_spelt reads
    refine ⟨false, members, ⟨unclosed, fun _ => ?_⟩, between, same⟩
    intro begins
    apply between.head?_ne plain
    rw [List.head?_append, begins]
    rfl

-- The induction is the readers' own: it goes down in what is left of the text,
-- and at equal length from the larger construct to the smaller one.

mutual

/-- Items are read up to where items stop. -/
theorem parseItems_spelt
    {nodes : List Node}
    {next : Cursor} :
    (start : Cursor) →
    answer (parseItems start) = .ok (nodes, next) →
    ∃ items : Items,
      items.WellFormed ∧
        Stops next.rest ∧
        Between start items.text items.groups next ∧
        items.nodes start.groups = nodes
  | ⟨[], position, groups⟩, reads => by
      rw [answer_parseItems_nil] at reads
      cases reads
      exact ⟨.nil, trivial, Ends.nil.stops, Between.refl _, rfl⟩
  | ⟨char :: rest, position, groups⟩, reads => by
      by_cases stop : char = '|' ∨ char = ')'
      · rw [answer_parseItems_stop stop] at reads
        cases reads
        exact ⟨.nil, trivial, Stops.cons rest stop, Between.refl _, rfl⟩
      rw [answer_parseItems_cons stop, bind_eq_ok_iff] at reads
      obtain ⟨⟨item, middle⟩, readsItem, afterItem⟩ := reads
      obtain ⟨⟨later, last⟩, readsLater, whole⟩ :=
        bind_eq_ok_iff.mp afterItem
      cases whole
      obtain ⟨atom, kind?, atomFormed, free, shorter, between, same⟩ :=
        parseQuantified_spelt char stop rest position groups readsItem
      obtain ⟨items, formed, stops, laterBetween, sameLater⟩ :=
        parseItems_spelt middle readsLater
      refine
        ⟨.cons atom kind? items, ⟨atomFormed, formed, ?_⟩, stops,
          between.trans laterBetween, ?_⟩
      · intro unrepeated kind
        exact laterBetween.head?_ne (free unrepeated kind)
      · rw [← same, ← sameLater, between.groups]
        rfl
termination_by start => (start.rest.length, 0)
decreasing_by
  · exact Prod.Lex.left _ _ (Nat.lt_succ_self _)
  · exact Prod.Lex.left _ _ (Nat.lt_succ_of_le shorter)

theorem parseBranches_spelt
    {nodes : List Node}
    {next : Cursor} :
    (start : Cursor) →
    Stops start.rest →
    answer (parseBranches start) = .ok (nodes, next) →
    ∃ branches : Branches,
      branches.WellFormed ∧
        Ends next.rest ∧
        Between start branches.text branches.groups next ∧
        branches.nodes start.groups = nodes
  | ⟨[], position, groups⟩, _, reads => by
      rw [answer_parseBranches_nil] at reads
      cases reads
      exact ⟨.nil, trivial, Ends.nil, Between.refl _, rfl⟩
  | ⟨char :: rest, position, groups⟩, stops, reads => by
      by_cases bar : char = '|'
      · subst bar
        rw [answer_parseBranches_bar, answer_parseConcatenation,
          bind_eq_ok_iff] at reads
        obtain ⟨⟨branch?, middle⟩, readsBranch, afterBranch⟩ := reads
        obtain ⟨⟨items, last⟩, readsItems, whole⟩ :=
          bind_eq_ok_iff.mp readsBranch
        cases whole
        obtain ⟨branch, branchFormed, branchStops, between, sameBranch⟩ :=
          parseItems_spelt _ readsItems
        have behindBar : middle.rest.length ≤ rest.length := between.rest_le
        -- An empty branch is refused, whatever stands behind it.
        by_cases empty : branch = .nil
        · subst empty
          cases sameBranch
          simp only [collapse] at afterBranch
          by_cases nothing : middle.rest = []
          · rw [if_pos nothing] at afterBranch
            cases afterBranch
          · rw [if_neg nothing] at afterBranch
            cases afterBranch
        rw [← sameBranch,
          collapse_of_ne_nil (Items.nodes_ne_nil empty _)] at afterBranch
        obtain ⟨⟨later, last⟩, readsLater, whole⟩ :=
          bind_eq_ok_iff.mp afterBranch
        cases whole
        obtain ⟨branches, formed, ends, laterBetween, sameLater⟩ :=
          parseBranches_spelt middle branchStops readsLater
        refine
          ⟨.cons branch branches, ⟨empty, branchFormed, formed⟩, ends,
            between.push.trans laterBetween, ?_⟩
        rw [← sameLater, between.groups]
        rfl
      · rw [answer_parseBranches_stop bar] at reads
        cases reads
        have close : char = ')' := (stops char rfl).resolve_left bar
        subst close
        exact ⟨.nil, trivial, Ends.close rest, Between.refl _, rfl⟩
termination_by start => (start.rest.length, 1)
decreasing_by
  · exact Prod.Lex.left _ _ (Nat.lt_succ_self _)
  · exact Prod.Lex.left _ _ (Nat.lt_succ_of_le behindBar)

theorem parseAlternation_spelt
    (start : Cursor)
    {value? : Option Node}
    {next : Cursor}
    (reads : answer (parseAlternation start) = .ok (value?, next)) :
    ∃ spelling : Alternation,
      spelling.WellFormed ∧
        Ends next.rest ∧
        Between start spelling.text spelling.groups next ∧
        spelling.node start.groups = value?.getD .empty := by
  rw [answer_parseAlternation, answer_parseConcatenation,
    bind_eq_ok_iff] at reads
  obtain ⟨⟨first?, middle⟩, readsFirst, afterFirst⟩ := reads
  obtain ⟨⟨items, last⟩, readsItems, whole⟩ := bind_eq_ok_iff.mp readsFirst
  cases whole
  obtain ⟨first, firstFormed, stops, between, sameFirst⟩ :=
    parseItems_spelt start readsItems
  have behindFirst := between.rest_le
  by_cases bar : middle.rest.head? = some '|'
  · simp only [if_pos bar] at afterFirst
    by_cases empty : first = .nil
    · subst empty
      cases sameFirst
      cases afterFirst
    rw [← sameFirst,
      collapse_of_ne_nil (Items.nodes_ne_nil empty _)] at afterFirst
    obtain ⟨⟨branches, last⟩, readsFurther, whole⟩ :=
      bind_eq_ok_iff.mp afterFirst
    cases whole
    obtain ⟨further, formed, ends, furtherBetween, sameFurther⟩ :=
      parseBranches_spelt middle stops readsFurther
    refine
      ⟨.of first further, ⟨firstFormed, formed, fun _ => empty⟩, ends,
        between.trans furtherBetween, ?_⟩
    -- At a bar there is at least one further branch.
    cases further with
    | nil =>
        rw [furtherBetween.rest] at bar
        cases ends '|' bar
    | cons branch later =>
        rw [← sameFurther, between.groups]
        rfl
  · simp only [if_neg bar] at afterFirst
    cases afterFirst
    refine
      ⟨.of first .nil, ⟨firstFormed, trivial, by simp⟩, ?_,
        between.trans (Between.refl _), ?_⟩
    · intro char begins
      rcases stops char begins with isBar | isClose
      · exact (bar (isBar ▸ begins)).elim
      · exact isClose
    · rw [← sameFirst, collapse_getD]
      rfl
termination_by (start.rest.length, 2)
decreasing_by
  · exact Prod.Lex.right _ (by decide)
  · exact Prod.lex_def.mpr
      ((Nat.lt_or_eq_of_le behindFirst).imp_right
        fun same => ⟨same, Nat.lt_succ_self 1⟩)

theorem parseAtom_spelt
    (char : Char)
    (goesOn : ¬ (char = '|' ∨ char = ')'))
    (rest : List Char)
    (position groups : Nat)
    {node : Node}
    {next : Cursor}
    (reads :
      answer (parseAtom char ⟨rest, position + 1, groups⟩) =
        .ok (node, next)) :
    ∃ atom : Atom,
      atom.WellFormed ∧
        Between ⟨char :: rest, position, groups⟩ atom.text atom.groups next ∧
        next.rest.length ≤ rest.length ∧
        atom.node groups = node := by
  by_cases isGroup : char = '('
  · subst isGroup
    rw [answer_parseAtom_group, answer_parseGroup, bind_eq_ok_iff] at reads
    obtain ⟨⟨body?, middle⟩, readsBody, afterBody⟩ := reads
    obtain ⟨body, formed, ends, between, same⟩ :=
      parseAlternation_spelt _ readsBody
    by_cases closes : middle.rest.head? = some ')'
    · simp only [if_pos closes] at afterBody
      cases afterBody
      have whole := (between.trans (.skip closes)).ofOpenGroup
      refine ⟨.group body, formed, whole.push, whole.rest_le, ?_⟩
      exact congrArg (Node.group (groups + 1)) same
    · simp only [if_neg closes] at afterBody
      cases afterBody
  by_cases isSet : char = '['
  · subst isSet
    rw [answer_parseAtom_set] at reads
    obtain ⟨negated, members, formed, between, same⟩ := parseSet_spelt reads
    exact
      ⟨.set negated members, formed, between.push, between.rest_le,
        same.symm⟩
  by_cases isEscape : char = '\\'
  · subst isEscape
    rw [answer_parseAtom_escape] at reads
    cases rest with
    | nil => cases reads
    | cons escapedChar later =>
        rw [answer_parseEscape_cons, escaped_eq_escapeNode] at reads
        cases reads
        exact
          ⟨.escape escapedChar, trivial, (Between.char _ _ _ _).push,
            Nat.le_succ _, rfl⟩
  rw [answer_parseAtom_plain isGroup isSet isEscape] at reads
  cases reads
  refine
    ⟨.plain char, ?_, Between.char _ _ _ _, Nat.le_refl _, rfl⟩
  rw [not_or] at goesOn
  simp [Atom.WellFormed, goesOn, isGroup, isSet, isEscape]
termination_by (rest.length, 3)
decreasing_by
  exact Prod.Lex.right _ (by decide)

theorem parseQuantified_spelt
    (char : Char)
    (goesOn : ¬ (char = '|' ∨ char = ')'))
    (rest : List Char)
    (position groups : Nat)
    {item : Node}
    {next : Cursor}
    (reads :
      answer (parseQuantified char ⟨rest, position + 1, groups⟩) =
        .ok (item, next)) :
    ∃ (atom : Atom) (kind? : Option RepeatKind),
      atom.WellFormed ∧
        (kind? = none →
          ∀ kind : RepeatKind, next.rest.head? ≠ some kind.sign) ∧
        next.rest.length ≤ rest.length ∧
        Between ⟨char :: rest, position, groups⟩
          (atom.text ++ (kind?.map RepeatKind.sign).toList) atom.groups next ∧
        repeated (atom.node groups) kind? = item := by
  rw [answer_parseQuantified, bind_eq_ok_iff] at reads
  obtain ⟨⟨node, middle⟩, readsAtom, quantified⟩ := reads
  obtain ⟨atom, formed, between, shorter, same⟩ :=
    parseAtom_spelt char goesOn rest position groups readsAtom
  obtain ⟨kind?, value, sign, free⟩ := quantify_spelt node middle
  cases quantified
  refine
    ⟨atom, kind?, formed, free, Nat.le_trans sign.rest_le shorter,
      between.trans sign, ?_⟩
  rw [same, value]
termination_by (rest.length, 4)
decreasing_by
  exact Prod.Lex.right _ (by decide)

end

end Spelling

end LineSearch
