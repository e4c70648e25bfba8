import LineSearch.Proofs.OptionalGroup
import LineSearch.Proofs.LeadingAnchor

namespace LineSearch

/-!
# Texts put together from texts that compile

Spellings can be put between parentheses, on both sides of a bar and one behind
the other, and so can the texts that they spell.  The tree of the whole is put
together from the trees of the parts in the same way: in each part the groups are
numbered on from those opened in front of it, and nothing else depends on what
stands around the part.
-/

namespace Node

mutual

/-- The tree as it is where this many more groups are opened in front of it. -/
def behind (opened : Nat) : Node → Node
  | .concat items => .concat (behindAll opened items)
  | .alternation branches => .alternation (behindAll opened branches)
  | .repetition body kind greedy =>
      .repetition (body.behind opened) kind greedy
  | .group index body => .group (index + opened) (body.behind opened)
  | .literal char => .literal char
  | .dot => .dot
  | .charClass kind => .charClass kind
  | .set members => .set members
  | .anchor place => .anchor place
  | .backref index => .backref index

/-- Each of the trees where this many more groups are opened in front of it. -/
def behindAll (opened : Nat) : List Node → List Node
  | [] => []
  | node :: rest => node.behind opened :: behindAll opened rest

end

theorem behindAll_eq_map
    (opened : Nat)
    (nodes : List Node) :
    behindAll opened nodes = nodes.map (behind opened) := by
  induction nodes with
  | nil => rfl
  | cons node rest inductionHypothesis =>
      rw [behindAll, inductionHypothesis, List.map_cons]

/-- The branches of an alternation; any other tree is a single branch. -/
def branches : Node → List Node
  | .alternation branches => branches
  | node => [node]

/-- The items of a concatenation; any other tree is a single item. -/
def items : Node → List Node
  | .concat items => items
  | node => [node]

theorem branches_of_not_alternation
    {node : Node}
    (single : node.isAlternation = false) :
    node.branches = [node] := by
  cases node with
  | alternation branches => cases single
  | _ => rfl

theorem items_of_not_concat
    {node : Node}
    (single : node.isConcat = false) :
    node.items = [node] := by
  cases node with
  | concat items => cases single
  | _ => rfl

theorem branches_behind
    (opened : Nat)
    (node : Node) :
    (node.behind opened).branches = node.branches.map (behind opened) := by
  cases node with
  | alternation branches => exact behindAll_eq_map opened branches
  | _ => rfl

end Node

namespace Spelling

open Node

/-- Items that are no concatenations are the items of the tree they are chained to. -/
theorem items_chained
    {items : List Node}
    (single : ∀ item ∈ items, item.isConcat = false) :
    (chained items).items = items := by
  match items with
  | [] => rfl
  | [item] => exact items_of_not_concat (single item List.mem_cons_self)
  | _ :: _ :: _ => rfl

/-- Branches the first of which is no alternation are the branches of their tree. -/
theorem branches_alternated
    {first : Node}
    (single : first.isAlternation = false)
    (further : List Node) :
    (alternated first further).branches = first :: further := by
  cases further with
  | nil => exact branches_of_not_alternation single
  | cons branch later => rfl

theorem behind_chained
    (opened : Nat)
    (items : List Node) :
    (chained items).behind opened = chained (items.map (behind opened)) := by
  match items with
  | [] => rfl
  | [item] => rfl
  | first :: second :: later =>
      exact congrArg Node.concat (behindAll_eq_map opened _)

theorem behind_alternated
    (opened : Nat)
    (first : Node)
    (further : List Node) :
    (alternated first further).behind opened =
      alternated (first.behind opened) (further.map (behind opened)) := by
  cases further with
  | nil => rfl
  | cons branch later =>
      exact congrArg Node.alternation (behindAll_eq_map opened _)

theorem behind_repeated
    (opened : Nat)
    (atom : Node)
    (kind? : Option RepeatKind) :
    (repeated atom kind?).behind opened =
      repeated (atom.behind opened) kind? := by
  cases kind? with
  | none => rfl
  | some kind => rfl

theorem behind_plainNode
    (opened : Nat)
    (char : Char) :
    (plainNode char).behind opened = plainNode char := by
  unfold plainNode
  split <;> rfl

theorem behind_escapeNode
    (opened : Nat)
    (char : Char) :
    (escapeNode char).behind opened = escapeNode char := by
  unfold escapeNode
  split <;> rfl

mutual

theorem Atom.node_behind
    (before : Nat) :
    (atom : Atom) →
    (opened : Nat) →
    atom.node (opened + before) = (atom.node opened).behind before
  | .plain char, _ => (behind_plainNode before char).symm
  | .escape char, _ => (behind_escapeNode before char).symm
  | .set _ _, _ => rfl
  | .group body, opened => by
      have moved := Alternation.node_behind before body (opened + 1)
      rw [Nat.add_right_comm] at moved
      rw [Atom.node, Atom.node, moved, behind, Nat.add_right_comm]

theorem Items.nodes_behind
    (before : Nat) :
    (items : Items) →
    (opened : Nat) →
    items.nodes (opened + before) =
      (items.nodes opened).map (behind before)
  | .nil, _ => rfl
  | .cons atom kind? rest, opened => by
      have movedRest := Items.nodes_behind before rest (opened + atom.groups)
      rw [Nat.add_right_comm] at movedRest
      rw [Items.nodes, Items.nodes, List.map_cons, behind_repeated,
        Atom.node_behind before atom, movedRest]

theorem Branches.nodes_behind
    (before : Nat) :
    (branches : Branches) →
    (opened : Nat) →
    branches.nodes (opened + before) =
      (branches.nodes opened).map (behind before)
  | .nil, _ => rfl
  | .cons branch rest, opened => by
      have movedRest :=
        Branches.nodes_behind before rest (opened + branch.groups)
      rw [Nat.add_right_comm] at movedRest
      rw [Branches.nodes, Branches.nodes, List.map_cons, behind_chained,
        Items.nodes_behind before branch, movedRest]

/-- Groups opened in front of a spelling move the numbers of its own groups. -/
theorem Alternation.node_behind
    (before : Nat) :
    (spelling : Alternation) →
    (opened : Nat) →
    spelling.node (opened + before) =
      (spelling.node opened).behind before
  | .of first further, opened => by
      have movedFurther :=
        Branches.nodes_behind before further (opened + first.groups)
      rw [Nat.add_right_comm] at movedFurther
      rw [Alternation.node, Alternation.node, behind_alternated,
        behind_chained, Items.nodes_behind before first, movedFurther]

end

/-- Items behind items. -/
def Items.append : Items → Items → Items
  | .nil, later => later
  | .cons atom kind? rest, later => .cons atom kind? (rest.append later)

/-- Branches behind branches. -/
def Branches.append : Branches → Branches → Branches
  | .nil, later => later
  | .cons branch rest, later => .cons branch (rest.append later)

theorem Items.text_append :
    (items later : Items) →
    (items.append later).text = items.text ++ later.text
  | .nil, _ => rfl
  | .cons atom kind? rest, later => by
      simp only [append, text, Items.text_append rest later,
        List.append_assoc]

theorem Items.groups_append :
    (items later : Items) →
    (items.append later).groups = items.groups + later.groups
  | .nil, _ => (Nat.zero_add _).symm
  | .cons atom kind? rest, later => by
      simp only [append, groups, Items.groups_append rest later,
        Nat.add_assoc]

theorem Items.nodes_append :
    (items later : Items) →
    (opened : Nat) →
    (items.append later).nodes opened =
      items.nodes opened ++ later.nodes (opened + items.groups)
  | .nil, _, _ => rfl
  | .cons atom kind? rest, later, opened => by
      simp only [append, nodes, groups, List.cons_append,
        Items.nodes_append rest later, Nat.add_assoc]

/-- Items may stand behind items unless they begin with a repetition sign. -/
theorem Items.wellFormed_append
    {later : Items}
    (laterFormed : later.WellFormed)
    (free : ∀ kind : RepeatKind, later.text.head? ≠ some kind.sign) :
    (items : Items) →
    items.WellFormed →
    (items.append later).WellFormed
  | .nil, _ => laterFormed
  | .cons atom kind? rest, formed => by
      obtain ⟨atomFormed, restFormed, alone⟩ := formed
      refine
        ⟨atomFormed, Items.wellFormed_append laterFormed free rest restFormed, ?_⟩
      intro unrepeated kind
      rw [Items.text_append]
      cases begins : rest.text with
      | nil => exact free kind
      | cons char chars =>
          have notHere := alone unrepeated kind
          rwa [begins] at notHere

theorem Branches.text_append :
    (branches later : Branches) →
    (branches.append later).text = branches.text ++ later.text
  | .nil, _ => rfl
  | .cons branch rest, later => by
      simp only [append, text, Branches.text_append rest later,
        List.append_assoc, List.cons_append]

theorem Branches.groups_append :
    (branches later : Branches) →
    (branches.append later).groups = branches.groups + later.groups
  | .nil, _ => (Nat.zero_add _).symm
  | .cons branch rest, later => by
      simp only [append, groups, Branches.groups_append rest later,
        Nat.add_assoc]

theorem Branches.nodes_append :
    (branches later : Branches) →
    (opened : Nat) →
    (branches.append later).nodes opened =
      branches.nodes opened ++ later.nodes (opened + branches.groups)
  | .nil, _, _ => rfl
  | .cons branch rest, later, opened => by
      simp only [append, nodes, groups, List.cons_append,
        Branches.nodes_append rest later, Nat.add_assoc]

theorem Branches.wellFormed_append
    {later : Branches}
    (laterFormed : later.WellFormed) :
    (branches : Branches) →
    branches.WellFormed →
    (branches.append later).WellFormed
  | .nil, _ => laterFormed
  | .cons _ rest, formed =>
      ⟨formed.1, formed.2.1,
        Branches.wellFormed_append laterFormed rest formed.2.2⟩

/-- The branches of one spelling, and behind a bar those of another one. -/
def Alternation.either : Alternation → Alternation → Alternation
  | .of first further, .of other others =>
      .of first (further.append (.cons other others))

theorem Alternation.branches_node
    (first : Items)
    (further : Branches)
    (opened : Nat) :
    ((Alternation.of first further).node opened).branches =
      chained (first.nodes opened) ::
        further.nodes (opened + first.groups) := by
  apply branches_alternated
  apply isAlternation_chained
  exact fun item member => (Items.nodes_single item member).2

theorem Alternation.node_either
    (left right : Alternation)
    (opened : Nat) :
    (left.either right).node opened =
      .alternation
        ((left.node opened).branches ++
          (right.node (opened + left.groups)).branches) := by
  obtain ⟨first, further⟩ := left
  obtain ⟨other, others⟩ := right
  rw [branches_node, branches_node, either, Alternation.node,
    Branches.nodes_append, Branches.nodes, Alternation.groups, Nat.add_assoc]
  cases further.nodes (opened + first.groups) <;> rfl

/-- A spelling of some characters begins with an item. -/
theorem Alternation.WellFormed.first_ne_nil
    {first : Items}
    {further : Branches}
    (formed : (Alternation.of first further).WellFormed)
    (nonempty : (Alternation.of first further).text ≠ []) :
    first ≠ .nil := by
  rintro rfl
  obtain rfl := formed.eq_empty
  exact nonempty rfl

theorem Alternation.WellFormed.either
    {left right : Alternation}
    (formed : left.WellFormed)
    (otherFormed : right.WellFormed)
    (nonempty : left.text ≠ [])
    (otherNonempty : right.text ≠ []) :
    (left.either right).WellFormed := by
  obtain ⟨first, further⟩ := left
  obtain ⟨other, others⟩ := right
  refine
    ⟨formed.1, Branches.wellFormed_append ?_ further formed.2.1,
      fun _ => formed.first_ne_nil nonempty⟩
  exact
    ⟨otherFormed.first_ne_nil otherNonempty, otherFormed.1, otherFormed.2.1⟩

theorem Alternation.text_either
    (left right : Alternation) :
    (left.either right).text = left.text ++ '|' :: right.text := by
  obtain ⟨first, further⟩ := left
  obtain ⟨other, others⟩ := right
  simp only [either, text, Branches.text_append, Branches.text,
    List.append_assoc, List.cons_append]

theorem Alternation.groups_either
    (left right : Alternation) :
    (left.either right).groups = left.groups + right.groups := by
  obtain ⟨first, further⟩ := left
  obtain ⟨other, others⟩ := right
  simp only [either, groups, Branches.groups_append, Branches.groups,
    Nat.add_assoc]

/-- A tree that is no alternation is spelt by items alone. -/
theorem Alternation.eq_of_not_alternation
    {spelling : Alternation}
    {opened : Nat}
    (single : (spelling.node opened).isAlternation = false) :
    ∃ items, spelling = .of items .nil := by
  obtain ⟨items, further⟩ := spelling
  cases further with
  | nil => exact ⟨items, rfl⟩
  | cons branch rest => cases single

theorem Alternation.items_node
    (items : Items)
    (opened : Nat) :
    ((Alternation.of items .nil).node opened).items = items.nodes opened := by
  apply items_chained
  exact fun item member => (Items.nodes_single item member).1

end Spelling

namespace Pattern

open Spelling

variable {left right : String} {first second : Pattern}

/-- A text that compiles is the body of a group. -/
theorem compile_group
    (compiled : compile left = .ok first) :
    ∃ whole,
      compile ("(" ++ left ++ ")") = .ok whole ∧
        whole.root = .group 1 (first.root.behind 1) ∧
        whole.groupCount = first.groupCount + 1 := by
  obtain ⟨spelling, spells, rfl⟩ := spells_of_compile compiled
  have grouped : (spelling.grouped none).Spells ("(" ++ left ++ ")") :=
    spells.grouped none (by simp)
  refine ⟨_, compile_of_spells grouped, ?_, rfl⟩
  exact congrArg (Node.group 1) (Alternation.node_behind 1 spelling 0)

/-- Two texts that compile, and are not empty, stand on both sides of a bar. -/
theorem compile_either
    (compiledLeft : compile left = .ok first)
    (compiledRight : compile right = .ok second)
    (leftNonempty : left ≠ "")
    (rightNonempty : right ≠ "") :
    ∃ whole,
      compile (left ++ "|" ++ right) = .ok whole ∧
        whole.root =
          .alternation
            (first.root.branches ++
              second.root.branches.map (Node.behind first.groupCount)) ∧
        whole.groupCount = first.groupCount + second.groupCount := by
  obtain ⟨spelling, ⟨formed, text⟩, rfl⟩ := spells_of_compile compiledLeft
  obtain ⟨other, ⟨otherFormed, otherText⟩, rfl⟩ :=
    spells_of_compile compiledRight
  have spells :
      (spelling.either other).Spells (left ++ "|" ++ right) := by
    refine ⟨formed.either otherFormed ?_ ?_, ?_⟩
    · rw [text]
      simpa using leftNonempty
    · rw [otherText]
      simpa using rightNonempty
    · rw [Alternation.text_either, text, otherText]
      simp
  refine ⟨_, compile_of_spells spells, ?_, ?_⟩
  · have moved := Alternation.node_behind spelling.groups other 0
    simp only [Alternation.pattern, Alternation.node_either, moved,
      Node.branches_behind]
  · exact Alternation.groups_either spelling other

/-- Two texts that compile without bars stand one behind the other. -/
theorem compile_append
    (compiledLeft : compile left = .ok first)
    (compiledRight : compile right = .ok second)
    (leftSingle : first.root.isAlternation = false)
    (rightSingle : second.root.isAlternation = false)
    (free : ∀ kind : RepeatKind, right.toList.head? ≠ some kind.sign) :
    ∃ whole,
      compile (left ++ right) = .ok whole ∧
        whole.root =
          chained
            (first.root.items ++
              second.root.items.map (Node.behind first.groupCount)) ∧
        whole.groupCount = first.groupCount + second.groupCount := by
  obtain ⟨spelling, ⟨formed, text⟩, rfl⟩ := spells_of_compile compiledLeft
  obtain ⟨other, ⟨otherFormed, otherText⟩, rfl⟩ :=
    spells_of_compile compiledRight
  obtain ⟨items, rfl⟩ := Alternation.eq_of_not_alternation leftSingle
  obtain ⟨later, rfl⟩ := Alternation.eq_of_not_alternation rightSingle
  simp only [Alternation.text, Branches.text, List.append_nil]
    at text otherText
  have spells :
      (Alternation.of (items.append later) .nil).Spells (left ++ right) := by
    refine ⟨⟨?_, trivial, nofun⟩, ?_⟩
    · apply Items.wellFormed_append otherFormed.1 _ items formed.1
      rwa [otherText]
    · simp [Alternation.text, Branches.text, Items.text_append, text,
        otherText]
  refine ⟨_, compile_of_spells spells, ?_, ?_⟩
  · have moved := Items.nodes_behind items.groups later 0
    have appended := Items.nodes_append items later 0
    simp only [Alternation.pattern, Alternation.items_node]
    exact congrArg chained (appended.trans (congrArg _ moved))
  · exact Items.groups_append items later

/--
Texts that compile can be put together.  Between parentheses a text is the body
of the first group, and the groups inside it are numbered on from there.  On both
sides of a bar two texts give their branches, and one behind the other, where
neither is an alternation and no repetition sign stands at the seam, they give
their items.  The groups of the second text are numbered on from those of the
first, and back references stay as they are.
-/
theorem compiling_is_compositional
    (compiledLeft : compile left = .ok first)
    (compiledRight : compile right = .ok second) :
    (∃ whole,
        compile ("(" ++ left ++ ")") = .ok whole ∧
          whole.root = .group 1 (first.root.behind 1) ∧
          whole.groupCount = first.groupCount + 1) ∧
      (left ≠ "" →
        right ≠ "" →
          ∃ whole,
            compile (left ++ "|" ++ right) = .ok whole ∧
              whole.root =
                .alternation
                  (first.root.branches ++
                    second.root.branches.map
                      (Node.behind first.groupCount)) ∧
              whole.groupCount = first.groupCount + second.groupCount) ∧
      (first.root.isAlternation = false →
        second.root.isAlternation = false →
          (∀ char, right.toList.head? = some char → char ∉ ['?', '*', '+']) →
            ∃ whole,
              compile (left ++ right) = .ok whole ∧
                whole.root =
                  chained
                    (first.root.items ++
                      second.root.items.map
                        (Node.behind first.groupCount)) ∧
                whole.groupCount = first.groupCount + second.groupCount) := by
  refine ⟨compile_group compiledLeft, compile_either compiledLeft compiledRight, ?_⟩
  intro leftSingle rightSingle free
  apply compile_append compiledLeft compiledRight leftSingle rightSingle
  intro kind begins
  apply free kind.sign begins
  cases kind <;> decide

/-- Both parts have one group; the back reference behind the seam still names the first one. -/
theorem compiling_is_compositional_with_a_group_on_either_side :
    let left : Node := .concat [.group 1 (.literal 'a'), .literal 'b']
    let right : Node :=
      .concat [.repetition (.group 1 .dot) .zeroOrOne true, .backref 1]
    let moved : Node := .repetition (.group 2 .dot) .zeroOrOne true
    compile "(a)b" = .ok ⟨left, 1, false, "(a)b"⟩ ∧
      compile "(.)?\\1" = .ok ⟨right, 1, false, "(.)?\\1"⟩ ∧
      (∃ whole,
        compile "((a)b)" = .ok whole ∧
          whole.root =
            .group 1 (.concat [.group 2 (.literal 'a'), .literal 'b']) ∧
          whole.groupCount = 2) ∧
      (∃ whole,
        compile "(a)b|(.)?\\1" = .ok whole ∧
          whole.root =
            .alternation [left, .concat [moved, .backref 1]] ∧
          whole.groupCount = 2) ∧
      ∃ whole,
        compile "(a)b(.)?\\1" = .ok whole ∧
          whole.root =
            .concat
              [.group 1 (.literal 'a'), .literal 'b', moved, .backref 1] ∧
          whole.groupCount = 2 := by
  intro left right moved
  have leftSpells :
      Alternation.Spells
        (.of
          (.cons (.group (.of (.cons (.plain 'a') none .nil) .nil)) none
            (.cons (.plain 'b') none .nil))
          .nil)
        "(a)b" := by
    decide
  have rightSpells :
      Alternation.Spells
        (.of
          (.cons (.group (.of (.cons (.plain '.') none .nil) .nil))
            (some .zeroOrOne)
            (.cons (.escape '1') none .nil))
          .nil)
        "(.)?\\1" := by
    decide
  have compiledLeft : compile "(a)b" = .ok ⟨left, 1, false, "(a)b"⟩ :=
    compile_of_spells leftSpells
  have compiledRight :
      compile "(.)?\\1" = .ok ⟨right, 1, false, "(.)?\\1"⟩ :=
    compile_of_spells rightSpells
  obtain ⟨inGroup, oneOrOther, inTurn⟩ :=
    compiling_is_compositional compiledLeft compiledRight
  refine
    ⟨compiledLeft, compiledRight, inGroup, oneOrOther (by decide) (by decide),
      inTurn rfl rfl ?_⟩
  rintro char ⟨⟩
  decide

end Pattern

end LineSearch
