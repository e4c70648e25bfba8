import LineSearch.Proofs.ReadingSpelt

namespace LineSearch

/-!
# Compiling is reading the grammar

A text compiles when it has a well-formed spelling, and then to the tree of that
spelling.  The groups of the tree bear the numbers from one on, in the order in
which their parentheses open.
-/

mutual

/-- The numbers of the groups of a tree, in the order in which these open. -/
def Node.groupIndices : Node → List Nat
  | .concat items => Node.groupIndicesOfAll items
  | .alternation branches => Node.groupIndicesOfAll branches
  | .repetition body _ _ => body.groupIndices
  | .group index body => index :: body.groupIndices
  | .literal _ | .dot | .charClass _ | .set _ | .anchor _ | .backref _ => []

@[inherit_doc Node.groupIndices]
def Node.groupIndicesOfAll : List Node → List Nat
  | [] => []
  | node :: later => node.groupIndices ++ Node.groupIndicesOfAll later

end

namespace Spelling

theorem groupIndices_chained (items : List Node) :
    (chained items).groupIndices = Node.groupIndicesOfAll items := by
  match items with
  | [] => rfl
  | [item] => exact (List.append_nil item.groupIndices).symm
  | _ :: _ :: _ => rfl

theorem groupIndices_alternated
    (first : Node)
    (further : List Node) :
    (alternated first further).groupIndices =
      first.groupIndices ++ Node.groupIndicesOfAll further := by
  cases further with
  | nil => exact (List.append_nil first.groupIndices).symm
  | cons branch later => rfl

theorem groupIndices_repeated
    (atom : Node)
    (kind? : Option RepeatKind) :
    (repeated atom kind?).groupIndices = atom.groupIndices := by
  cases kind? with
  | none => rfl
  | some kind => rfl

theorem groupIndices_plainNode (char : Char) :
    (plainNode char).groupIndices = [] := by
  unfold plainNode
  split <;> rfl

theorem groupIndices_escapeNode (char : Char) :
    (escapeNode char).groupIndices = [] := by
  unfold escapeNode
  split <;> rfl

/-- Two runs of numbers, the second from where the first ends. -/
private theorem range'_append_succ (start first second : Nat) :
    List.range' (start + 1) first ++ List.range' (start + first + 1) second =
      List.range' (start + 1) (first + second) := by
  rw [Nat.add_right_comm, List.range'_append_1]

mutual

theorem Atom.groupIndices_node :
    (atom : Atom) →
    (opened : Nat) →
    (atom.node opened).groupIndices = List.range' (opened + 1) atom.groups
  | .plain char, _ => groupIndices_plainNode char
  | .escape char, _ => groupIndices_escapeNode char
  | .set _ _, _ => rfl
  | .group body, opened => by
      rw [Atom.groups, List.range'_succ,
        ← Alternation.groupIndices_node body (opened + 1)]
      rfl

theorem Items.groupIndicesOfAll_nodes :
    (items : Items) →
    (opened : Nat) →
    Node.groupIndicesOfAll (items.nodes opened) =
      List.range' (opened + 1) items.groups
  | .nil, _ => rfl
  | .cons atom kind? rest, opened => by
      rw [Items.nodes, Node.groupIndicesOfAll, groupIndices_repeated,
        Atom.groupIndices_node atom, Items.groupIndicesOfAll_nodes rest,
        range'_append_succ]
      rfl

theorem Branches.groupIndicesOfAll_nodes :
    (branches : Branches) →
    (opened : Nat) →
    Node.groupIndicesOfAll (branches.nodes opened) =
      List.range' (opened + 1) branches.groups
  | .nil, _ => rfl
  | .cons branch rest, opened => by
      rw [Branches.nodes, Node.groupIndicesOfAll, groupIndices_chained,
        Items.groupIndicesOfAll_nodes branch,
        Branches.groupIndicesOfAll_nodes rest, range'_append_succ]
      rfl

/-- Groups are numbered as they open, from the next free number on. -/
theorem Alternation.groupIndices_node :
    (spelling : Alternation) →
    (opened : Nat) →
    (spelling.node opened).groupIndices =
      List.range' (opened + 1) spelling.groups
  | .of first further, opened => by
      rw [Alternation.node, groupIndices_alternated, groupIndices_chained,
        Items.groupIndicesOfAll_nodes first,
        Branches.groupIndicesOfAll_nodes further, range'_append_succ]
      rfl

end

end Spelling

namespace Pattern

open Spelling

/-- A text compiles when its alternation is read to the end. -/
theorem compile_eq_ok_iff
    {text : String}
    {pattern : Pattern} :
    compile text = .ok pattern ↔
      ∃ root? next,
        answer (parseAlternation (Cursor.ofText text)) =
            .ok (root?, next) ∧
          next.rest = [] ∧
          pattern =
            { root := root?.getD .empty
              groupCount := next.groups
              anchoredStart := text.toList.head? = some '^'
              source := text } := by
  unfold compile
  cases parseAlternation (Cursor.ofText text) with
  | error reason => simp
  | ok parsed =>
      rcases parsed with ⟨root?, ⟨rest, position, groups⟩, bound⟩
      cases rest with
      | nil =>
          constructor
          · intro compiled
            cases compiled
            exact ⟨root?, _, rfl, rfl, rfl⟩
          · rintro ⟨_, _, read, _, rfl⟩
            cases read
            rfl
      | cons char rest =>
          constructor
          · intro compiled
            cases compiled
          · rintro ⟨_, _, read, ended, _⟩
            cases read
            cases ended

/-- What spells a text is what it compiles to. -/
theorem compile_of_spells
    {spelling : Alternation}
    {text : String}
    (spells : spelling.Spells text) :
    compile text = .ok (spelling.pattern text) := by
  obtain ⟨wellFormed, same⟩ := spells
  have between :
      Between (Cursor.ofText text) spelling.text spelling.groups
        ⟨[], text.toList.length, spelling.groups⟩ := by
    refine ⟨?_, ?_, ?_⟩
    · rw [same, List.append_nil]
      rfl
    · rw [same]
      exact (Nat.zero_add _).symm
    · exact (Nat.zero_add _).symm
  obtain ⟨root?, reads, root⟩ :=
    Alternation.read spelling wellFormed Ends.nil between
  refine compile_eq_ok_iff.mpr ⟨root?, _, reads, rfl, ?_⟩
  rw [root]
  rfl

/-- What a text compiles to is spelt by it. -/
theorem spells_of_compile
    {text : String}
    {pattern : Pattern}
    (compiled : compile text = .ok pattern) :
    ∃ spelling : Alternation,
      spelling.Spells text ∧ pattern = spelling.pattern text := by
  obtain ⟨root?, next, reads, ended, rfl⟩ := compile_eq_ok_iff.mp compiled
  obtain ⟨spelling, wellFormed, _, between, root⟩ :=
    parseAlternation_spelt _ reads
  refine ⟨spelling, ⟨wellFormed, ?_⟩, ?_⟩
  · have whole := between.rest
    rw [ended, List.append_nil] at whole
    exact whole.symm
  · have count := between.groups
    rw [← root, count]
    simp only [Alternation.pattern, Cursor.ofText, Nat.zero_add]

/-- The groups of a compiled pattern bear the numbers up to their count. -/
theorem groupIndices_of_compile
    {text : String}
    {pattern : Pattern}
    (compiled : compile text = .ok pattern) :
    pattern.root.groupIndices = List.range' 1 pattern.groupCount := by
  obtain ⟨spelling, _, rfl⟩ := spells_of_compile compiled
  exact Alternation.groupIndices_node spelling 0

/--
A text compiles when the grammar spells it, which it does in one way at most, to
the tree of that spelling, whose groups are numbered as they open.
-/
theorem compile_reads_the_grammar (text : String) :
    ((∃ pattern, compile text = .ok pattern) ↔
        ∃ spelling : Alternation, spelling.Spells text) ∧
      (∀ spelling other : Alternation,
        spelling.Spells text → other.Spells text → spelling = other) ∧
      ∀ spelling : Alternation,
        spelling.Spells text →
          compile text = .ok (spelling.pattern text) ∧
            (spelling.pattern text).root.groupIndices =
              List.range' 1 (spelling.pattern text).groupCount := by
  refine ⟨⟨?_, ?_⟩, ?_, ?_⟩
  · rintro ⟨pattern, compiled⟩
    obtain ⟨spelling, spells, _⟩ := spells_of_compile compiled
    exact ⟨spelling, spells⟩
  · rintro ⟨spelling, spells⟩
    exact ⟨_, compile_of_spells spells⟩
  · intro spelling other spells otherSpells
    exact spells.unique otherSpells
  · intro spelling spells
    have compiled := compile_of_spells spells
    exact ⟨compiled, groupIndices_of_compile compiled⟩

/-- The second star has nothing left to repeat and stands for itself. -/
theorem compile_reads_the_grammar_two_stars :
    compile "(a)**" =
      .ok
        { root :=
            .concat
              [.repetition (.group 1 (.literal 'a')) .zeroOrMore true,
                .literal '*']
          groupCount := 1
          anchoredStart := false
          source := "(a)**" } := by
  let inside : Items := .cons (.plain 'a') none .nil
  let star : Items := .cons (.plain '*') none .nil
  let spelling : Alternation :=
    .of (.cons (.group (.of inside .nil)) (some .zeroOrMore) star) .nil
  have spells : spelling.Spells "(a)**" := by
    decide
  exact ((compile_reads_the_grammar "(a)**").2.2 spelling spells).1

end Pattern

end LineSearch
