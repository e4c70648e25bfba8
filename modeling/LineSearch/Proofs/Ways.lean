import LineSearch.Match.Possibilities

namespace LineSearch

/-!
# What is among the ways of a node

The list of ways is generated in an order that matters to the search.  Which
ways it holds at all is simpler, and is stated here once for each kind of node:
a way is listed exactly when the node's parts supply it.  The module also gives
the induction over trees that later proofs follow, in which the four nodes for
a single character are one case.
-/

/-- Taking members out changes nothing where they contribute nothing. -/
theorem flatMap_filter
    {keep : α → Bool}
    {follow : α → List β}
    (items : List α)
    (nothing : ∀ item ∈ items, keep item = false → follow item = []) :
    (items.filter keep).flatMap follow = items.flatMap follow := by
  induction items with
  | nil => rfl
  | cons item rest inductionHypothesis =>
      obtain ⟨ofItem, ofRest⟩ := List.forall_mem_cons.mp nothing
      rw [List.flatMap_cons, ← inductionHypothesis ofRest]
      cases kept : keep item with
      | true => rw [List.filter_cons_of_pos kept, List.flatMap_cons]
      | false =>
          rw [List.filter_cons_of_neg (by simp [kept]), ofItem kept,
            List.nil_append]

namespace Anchor

/-- The offset that an anchor demands. -/
def offset (chars : Line) : Anchor → Nat
  | .lineStart => 0
  | .lineEnd => chars.size

end Anchor

namespace Node

/-- The test that a node for a single character puts to it. -/
def test? : Node → Option (Char → Bool)
  | .literal expected => some (· == expected)
  | .dot => some fun _ => true
  | .charClass kind => some kind.contains
  | .set members => some members.contains
  | _ => none

/--
Induction over trees.  Items and branches come with the hypothesis for each of
them, and the nodes for a single character with their test.
-/
@[elab_as_elim]
theorem treeInduction
    {motive : Node → Prop}
    (single : ∀ node test, node.test? = some test → motive node)
    (anchor : ∀ place, motive (.anchor place))
    (concat :
      ∀ items, (∀ item, item ∈ items → motive item) →
        motive (.concat items))
    (alternation :
      ∀ branches, (∀ branch, branch ∈ branches → motive branch) →
        motive (.alternation branches))
    (repetition :
      ∀ body kind greedy, motive body →
        motive (.repetition body kind greedy))
    (group : ∀ index body, motive body → motive (.group index body))
    (backref : ∀ index, motive (.backref index)) :
    ∀ node, motive node
  | .literal _ => single _ _ rfl
  | .dot => single _ _ rfl
  | .charClass _ => single _ _ rfl
  | .set _ => single _ _ rfl
  | .anchor place => anchor place
  | .concat items =>
      concat items fun item _ =>
        treeInduction single anchor concat alternation
          repetition group backref item
  | .alternation branches =>
      alternation branches fun branch _ =>
        treeInduction single anchor concat alternation
          repetition group backref branch
  | .repetition body kind greedy =>
      repetition body kind greedy
        (treeInduction single anchor concat alternation
          repetition group backref body)
  | .group index body =>
      group index body
        (treeInduction single anchor concat alternation
          repetition group backref body)
  | .backref index => backref index

end Node

namespace Unroll

/-- A walk holds its root. -/
theorem self_mem_walk
    (length : Nat)
    (step : Progress → List Progress)
    (start : Progress) :
    start ∈ walk length step start := by
  rw [walk_eq]
  exact List.mem_cons_self

/-- What follows a progress is one step from it, or a walk from a step that advances. -/
theorem mem_outputs_successors
    {length : Nat}
    {step : Progress → List Progress}
    {start way : Progress} :
    way ∈ (successors length step start).flatMap (outputs length step) ↔
      ∃ next ∈ step start,
        way = next ∨
          advances length start next = true ∧
            way ∈ walk length step next := by
  simp only [successors, List.flatMap_map, List.mem_flatMap]
  constructor
  · rintro ⟨next, ofStep, member⟩
    refine ⟨next, ofStep, ?_⟩
    cases followed : advances length start next with
    | false =>
        exact Or.inl (by simpa [outputs, followed] using member)
    | true =>
        exact Or.inr ⟨rfl, by simpa [outputs, followed] using member⟩
  · rintro ⟨next, ofStep, same | ⟨followed, member⟩⟩
    · subst same
      refine ⟨way, ofStep, ?_⟩
      cases advances length start way with
      | false => simp [outputs]
      | true => exact self_mem_walk length step way
    · exact ⟨next, ofStep, by simpa [outputs, followed] using member⟩

/-- A walk holds its root and what follows it. -/
theorem mem_walk
    {length : Nat}
    {step : Progress → List Progress}
    {start way : Progress} :
    way ∈ walk length step start ↔
      way = start ∨
        ∃ next ∈ step start,
          way = next ∨
            advances length start next = true ∧
              way ∈ walk length step next := by
  rw [walk_eq, List.mem_cons, mem_outputs_successors]

end Unroll

namespace Progress

theorem mem_consume
    {start way : Progress}
    {chars : Line}
    {admits : Char → Bool} :
    way ∈ start.consume chars admits ↔
      ∃ char,
        chars[start.offset]? = some char ∧
          admits char = true ∧
          way = ⟨start.offset + 1, start.captures⟩ := by
  simp only [consume]
  cases chars[start.offset]? with
  | none => simp
  | some char => cases admitted : admits char <;> simp [admitted]

theorem mem_stay
    {start way : Progress}
    {right : Bool} :
    way ∈ start.stay right ↔ right = true ∧ way = start := by
  cases right <;> simp [stay]

theorem mem_copy
    {start way : Progress}
    {chars : Line}
    {span : Span} :
    way ∈ start.copy chars span ↔
      span.length ≠ 0 ∧
        Span.of ⟨start.offset, start.offset + span.length⟩ chars =
          span.of chars ∧
        way = ⟨start.offset + span.length, start.captures⟩ := by
  rw [← and_assoc]
  unfold copy
  by_cases copied :
      span.length ≠ 0 ∧
        chars.extract start.offset (start.offset + span.length) =
          span.of chars
  · rw [if_pos copied, List.mem_singleton]
    exact ⟨fun same => ⟨copied, same⟩, fun both => both.2⟩
  · rw [if_neg copied]
    exact ⟨fun member => (List.not_mem_nil member).elim,
      fun both => (copied both.1).elim⟩

end Progress

namespace Node

variable {chars : Line} {start way : Progress}

section Equations

-- The equations of the two functions simplify in this section only.
attribute [local simp] possibilities sequence

/-- A node for a single character consumes what its test admits. -/
theorem possibilities_of_test?
    {node : Node}
    {test : Char → Bool}
    (tested : node.test? = some test) :
    possibilities chars node start = start.consume chars test := by
  cases node <;> simp only [test?, Option.some.injEq, reduceCtorEq] at tested
  all_goals
    subst tested
    rw [possibilities]

theorem mem_anchor
    {place : Anchor} :
    way ∈ possibilities chars (.anchor place) start ↔
      start.offset = place.offset chars ∧ way = start := by
  cases place <;>
    simp [Progress.mem_stay, Anchor.offset]

theorem mem_concat_nil :
    way ∈ possibilities chars (.concat []) start ↔ way = start := by
  simp

theorem mem_concat_cons
    {item : Node}
    {rest : List Node} :
    way ∈ possibilities chars (.concat (item :: rest)) start ↔
      ∃ middle ∈ possibilities chars item start,
        way ∈ possibilities chars (.concat rest) middle := by
  simp [mem_prefer]

/-- An alternation lists what each branch prefers, branch after branch. -/
theorem choices_eq_flatMap (branches : List Node) :
    choices chars branches start =
      branches.flatMap fun branch => orderedPossibilities chars branch start := by
  induction branches with
  | nil => rw [choices, List.flatMap_nil]
  | cons branch rest inductionHypothesis =>
      rw [choices, inductionHypothesis, List.flatMap_cons, orderedPossibilities]

theorem mem_alternation
    {branches : List Node} :
    way ∈ possibilities chars (.alternation branches) start ↔
      ∃ branch ∈ branches, way ∈ possibilities chars branch start := by
  simp [choices_eq_flatMap, orderedPossibilities, mem_prefer]

theorem mem_group
    {index : Nat}
    {body : Node} :
    way ∈ possibilities chars (.group index body) start ↔
      ∃ inner ∈ possibilities chars body start,
        way = inner.closeGroup index start.offset := by
  simp only [possibilities, List.mem_map, mem_prefer]
  exact exists_congr fun inner => and_congr_right fun _ => eq_comm

theorem mem_backref
    {index : Nat} :
    way ∈ possibilities chars (.backref index) start ↔
      ∃ span,
        start.captures.span? index = some span ∧
          way ∈ start.copy chars span := by
  simp only [possibilities]
  cases start.captures.span? index <;> simp

end Equations

/-- Any number of occurrences are a walk from the start. -/
theorem possibilities_zeroOrMore
    {body : Node}
    {greedy : Bool} :
    possibilities chars (.repetition body .zeroOrMore greedy) start =
      Unroll.walk chars.size (possibilities chars body) start := by
  rw [possibilities, Unroll.unroll_eq_flatMap, List.flatMap_singleton,
    Unroll.outputs]

/-- At least one occurrence is what a walk puts out behind its root. -/
theorem possibilities_oneOrMore
    {body : Node}
    {greedy : Bool} :
    possibilities chars (.repetition body .oneOrMore greedy) start =
      (Unroll.successors chars.size (possibilities chars body) start).flatMap
        (Unroll.outputs chars.size (possibilities chars body)) := by
  rw [possibilities, Unroll.unroll_eq_flatMap]

/--
The three kinds of repetition differ in whether they hold where they start and
in whether they go on behind the first occurrence; from there on each of them is
any number of occurrences.
-/
theorem mem_repetition
    {body : Node}
    {kind : RepeatKind}
    {greedy : Bool} :
    way ∈ possibilities chars (.repetition body kind greedy) start ↔
      kind ≠ .oneOrMore ∧ way = start ∨
        ∃ next ∈ possibilities chars body start,
          way = next ∨
            kind ≠ .zeroOrOne ∧
              Unroll.advances chars.size start next = true ∧
              way ∈ possibilities chars
                (.repetition body .zeroOrMore greedy) next := by
  simp only [possibilities_zeroOrMore]
  cases kind with
  | zeroOrOne => simp [possibilities]
  | zeroOrMore =>
      simpa [possibilities_zeroOrMore] using Unroll.mem_walk
  | oneOrMore =>
      simpa [possibilities_oneOrMore] using Unroll.mem_outputs_successors

end Node

end LineSearch
