import LineSearch.Proofs.CompiledSpelling

namespace LineSearch

/-!
# The shape of compiled trees

The tree of a pattern text never nests two nodes where one would do: items of a
concatenation are no concatenations, branches of an alternation no alternations,
and what is repeated is a single atom.  Only a whole pattern or the body of a
group can be empty.  Together with the numbers of the groups and the conditions
on sets and back references this is the canonical shape, and this module shows
that every compiled tree has it.
-/

namespace Node

def isConcat : Node → Bool
  | .concat _ => true
  | _ => false

def isAlternation : Node → Bool
  | .alternation _ => true
  | _ => false

def isRepetition : Node → Bool
  | .repetition _ _ _ => true
  | _ => false

def isAnchor : Node → Bool
  | .anchor _ => true
  | _ => false

def isBackref : Node → Bool
  | .backref _ => true
  | _ => false

/-- The trees that a node is put together from. -/
def parts : Node → List Node
  | .concat items => items
  | .alternation branches => branches
  | .repetition body _ _ => [body]
  | .group _ body => [body]
  | .literal _ | .dot | .charClass _ | .set _ | .anchor _ | .backref _ => []

mutual

/-- Does this hold of every node of the tree? -/
def all (holds : Node → Bool) : Node → Bool
  | .concat items => holds (.concat items) && allOf holds items
  | .alternation branches =>
      holds (.alternation branches) && allOf holds branches
  | .repetition body kind greedy =>
      holds (.repetition body kind greedy) && body.all holds
  | .group index body => holds (.group index body) && body.all holds
  | .literal char => holds (.literal char)
  | .dot => holds .dot
  | .charClass kind => holds (.charClass kind)
  | .set members => holds (.set members)
  | .anchor place => holds (.anchor place)
  | .backref index => holds (.backref index)

/-- Does this hold of every node of each of these trees? -/
def allOf (holds : Node → Bool) : List Node → Bool
  | [] => true
  | tree :: rest => tree.all holds && allOf holds rest

end

theorem allOf_iff
    {holds : Node → Bool}
    {trees : List Node} :
    allOf holds trees = true ↔ ∀ tree ∈ trees, tree.all holds = true := by
  induction trees with
  | nil => simp [allOf]
  | cons tree rest inductionHypothesis => simp [allOf, inductionHypothesis]

theorem all_iff
    {holds : Node → Bool}
    {root : Node} :
    root.all holds = true ↔
      holds root = true ∧ ∀ part ∈ root.parts, part.all holds = true := by
  cases root <;> simp [all, parts, allOf_iff]

/-- No node of the tree is an anchor. -/
def anchorFree (root : Node) : Bool :=
  root.all fun node => !node.isAnchor

/-- No node of the tree is a back reference. -/
def backrefFree (root : Node) : Bool :=
  root.all fun node => !node.isBackref

/-- The first tree occurs in the second one, or is the second one. -/
inductive Within : Node → Node → Prop where
  | self
      {node : Node} :
      Within node node
  | inPart
      {inner part whole : Node} :
      part ∈ whole.parts →
      Within inner part →
      Within inner whole

/-- How a node is put together in a compiled tree. -/
def Regular : Node → Prop
  | .concat items =>
      (items = [] ∨ 2 ≤ items.length) ∧
        ∀ item ∈ items,
          item.isConcat = false ∧ item.isAlternation = false
  | .alternation branches =>
      2 ≤ branches.length ∧
        ∀ branch ∈ branches,
          branch.isAlternation = false ∧ branch ≠ .empty
  | .repetition body _ greedy =>
      greedy = true ∧
        body.isRepetition = false ∧
        body.isConcat = false ∧
        body.isAlternation = false
  | .set members =>
      members.chars.Nodup ∧
        ']' ∉ members.chars ∧
        (members.negated = false → members.chars.head? ≠ some '^')
  | .backref index => 1 ≤ index ∧ index ≤ 9
  | .literal _ | .dot | .charClass _ | .anchor _ | .group _ _ => True

/-- Every node of a tree is put together in this way. -/
def RegularThroughout (root : Node) : Prop :=
  ∀ node : Node, node.Within root → node.Regular

/-- A tree with this many groups that has the shape of a compiled tree. -/
structure Canonical (root : Node) (groupCount : Nat) : Prop where
  /-- The groups bear the numbers from one on, in the order in which they open. -/
  numbered : root.groupIndices = List.range' 1 groupCount
  regular : root.RegularThroughout
  /-- Nothing but a group is put together from an empty part. -/
  emptyAlone :
    ∀ whole : Node, whole.Within root → .empty ∈ whole.parts →
      ∃ index, whole = .group index .empty

theorem regularThroughout_iff
    {root : Node} :
    root.RegularThroughout ↔
      root.Regular ∧ ∀ part ∈ root.parts, part.RegularThroughout := by
  constructor
  · intro throughout
    exact
      ⟨throughout root .self,
        fun part isPart node within => throughout node (.inPart isPart within)⟩
  · rintro ⟨regular, ofParts⟩ node within
    cases within with
    | self => exact regular
    | inPart isPart within => exact ofParts _ isPart node within

/-- A tree without parts is regular throughout when it is regular. -/
theorem Regular.throughout
    {node : Node}
    (regular : node.Regular)
    (single : node.parts = []) :
    node.RegularThroughout := by
  rw [regularThroughout_iff, single]
  exact ⟨regular, List.forall_mem_nil _⟩

/-- Where every node is regular, only a group can have an empty part. -/
theorem RegularThroughout.emptyAlone
    {root : Node}
    (throughout : root.RegularThroughout)
    (whole : Node)
    (within : whole.Within root)
    (isPart : .empty ∈ whole.parts) :
    ∃ index, whole = .group index .empty := by
  have regular := throughout whole within
  cases whole with
  | concat items => cases (regular.2 _ isPart).1
  | alternation branches => exact ((regular.2 _ isPart).2 rfl).elim
  | repetition body kind greedy =>
      obtain rfl := List.mem_singleton.mp isPart
      cases regular.2.2.1
  | group index body =>
      obtain rfl := List.mem_singleton.mp isPart
      exact ⟨index, rfl⟩
  | literal | dot | charClass | set | anchor | backref => cases isPart

end Node

/-- Removing later occurrences leaves each member once. -/
theorem nodup_eraseDups
    (chars : List Char) :
    chars.eraseDups.Nodup := by
  match chars with
  | [] => exact List.nodup_nil
  | char :: rest =>
      rw [List.eraseDups_cons, List.nodup_cons]
      refine ⟨fun again => ?_, nodup_eraseDups _⟩
      simpa using List.mem_eraseDups.mp again
termination_by chars.length
decreasing_by exact Nat.lt_succ_of_le (List.length_filter_le _ _)

/-- The first member stays the first. -/
theorem head?_eraseDups
    (chars : List Char) :
    chars.eraseDups.head? = chars.head? := by
  cases chars with
  | nil => rfl
  | cons char rest =>
      rw [List.eraseDups_cons]
      rfl

/-- Where each member occurs once there is nothing to remove. -/
theorem eraseDups_of_nodup
    {chars : List Char}
    (once : chars.Nodup) :
    chars.eraseDups = chars := by
  induction chars with
  | nil => rfl
  | cons char rest inductionHypothesis =>
      obtain ⟨isNew, onceBehind⟩ := List.nodup_cons.mp once
      have others : rest.filter (fun other => !other == char) = rest := by
        refine List.filter_eq_self.mpr fun other isOther => ?_
        simpa using fun same : other = char => isNew (same ▸ isOther)
      rw [List.eraseDups_cons, others, inductionHypothesis onceBehind]

namespace Spelling

open Node

/-- What a plain character stands for is regular and single. -/
theorem regularThroughout_plainNode (char : Char) :
    (plainNode char).RegularThroughout := by
  unfold plainNode
  split <;> exact Regular.throughout trivial rfl

theorem regularThroughout_escapeNode (char : Char) :
    (escapeNode char).RegularThroughout := by
  unfold escapeNode
  split
  case h_1 | h_2 | h_12 => exact Regular.throughout trivial rfl
  all_goals
    refine Regular.throughout ?_ rfl
    rw [Regular]
    decide

/-- An atom is no repetition, no concatenation and no alternation. -/
theorem Atom.node_single
    (atom : Atom)
    (opened : Nat) :
    (atom.node opened).isRepetition = false ∧
      (atom.node opened).isConcat = false ∧
      (atom.node opened).isAlternation = false := by
  cases atom with
  | plain char =>
      unfold Atom.node plainNode
      split <;> exact ⟨rfl, rfl, rfl⟩
  | escape char =>
      unfold Atom.node escapeNode
      split <;> exact ⟨rfl, rfl, rfl⟩
  | set negated members => exact ⟨rfl, rfl, rfl⟩
  | group body => exact ⟨rfl, rfl, rfl⟩

/-- An item is no concatenation and no alternation. -/
theorem Items.nodes_single
    {items : Items}
    {opened : Nat} :
    ∀ item ∈ items.nodes opened,
      item.isConcat = false ∧ item.isAlternation = false := by
  match items with
  | .nil => exact List.forall_mem_nil _
  | .cons atom kind? rest =>
      refine List.forall_mem_cons.mpr ⟨?_, Items.nodes_single⟩
      cases kind? with
      | none => exact (atom.node_single opened).2
      | some kind => exact ⟨rfl, rfl⟩

/-- Items that are no concatenations are chained to an empty one only if there are none. -/
theorem chained_ne_empty
    {items : List Node}
    (single : ∀ item ∈ items, item.isConcat = false)
    (nonempty : items ≠ []) :
    chained items ≠ .empty := by
  match items with
  | [] => exact (nonempty rfl).elim
  | [item] =>
      intro isEmpty
      have noConcat := single item List.mem_cons_self
      rw [show item = .empty from isEmpty] at noConcat
      cases noConcat
  | _ :: _ :: _ =>
      intro isEmpty
      cases isEmpty

theorem isAlternation_chained
    {items : List Node}
    (single : ∀ item ∈ items, item.isAlternation = false) :
    (chained items).isAlternation = false := by
  match items with
  | [] => rfl
  | [item] => exact single item List.mem_cons_self
  | _ :: _ :: _ => rfl

theorem regularThroughout_chained
    {items : List Node}
    (single :
      ∀ item ∈ items,
        item.isConcat = false ∧ item.isAlternation = false)
    (throughout : ∀ item ∈ items, item.RegularThroughout) :
    (chained items).RegularThroughout := by
  match items with
  | [] => exact Regular.throughout ⟨Or.inl rfl, single⟩ rfl
  | [item] => exact throughout item List.mem_cons_self
  | _ :: _ :: _ =>
      exact
        regularThroughout_iff.mpr
          ⟨⟨Or.inr (by simp), single⟩, throughout⟩

theorem regularThroughout_alternated
    {first : Node}
    {further : List Node}
    (branched :
      further ≠ [] →
        ∀ branch ∈ first :: further,
          branch.isAlternation = false ∧ branch ≠ .empty)
    (throughout :
      ∀ branch ∈ first :: further, branch.RegularThroughout) :
    (alternated first further).RegularThroughout := by
  cases further with
  | nil => exact throughout first List.mem_cons_self
  | cons branch later =>
      exact
        regularThroughout_iff.mpr
          ⟨⟨by simp, branched (List.cons_ne_nil _ _)⟩, throughout⟩

theorem regularThroughout_repeated
    {atom : Node}
    (single :
      atom.isRepetition = false ∧
        atom.isConcat = false ∧
        atom.isAlternation = false)
    (throughout : atom.RegularThroughout)
    (kind? : Option RepeatKind) :
    (repeated atom kind?).RegularThroughout := by
  cases kind? with
  | none => exact throughout
  | some kind =>
      exact
        regularThroughout_iff.mpr
          ⟨⟨rfl, single⟩, List.forall_mem_singleton.mpr throughout⟩

/-- Items, of which there are some, make up neither an alternation nor an empty branch. -/
theorem Items.chained_single
    {items : Items}
    (nonempty : items ≠ .nil)
    (opened : Nat) :
    (chained (items.nodes opened)).isAlternation = false ∧
      chained (items.nodes opened) ≠ .empty := by
  have single :
      ∀ item ∈ items.nodes opened,
        item.isConcat = false ∧ item.isAlternation = false :=
    Items.nodes_single
  refine ⟨isAlternation_chained fun item member => (single item member).2, ?_⟩
  exact
    chained_ne_empty (fun item member => (single item member).1)
      (Items.nodes_ne_nil nonempty opened)

/-- A branch of an alternation is neither an alternation nor empty. -/
theorem Branches.nodes_single
    {branches : Branches}
    {opened : Nat}
    (formed : branches.WellFormed) :
    ∀ branch ∈ branches.nodes opened,
      branch.isAlternation = false ∧ branch ≠ .empty := by
  match branches with
  | .nil => exact List.forall_mem_nil _
  | .cons branch rest =>
      obtain ⟨nonempty, -, restFormed⟩ := formed
      exact
        List.forall_mem_cons.mpr
          ⟨Items.chained_single nonempty opened, Branches.nodes_single restFormed⟩

mutual

theorem Atom.regularThroughout_node :
    (atom : Atom) →
    atom.WellFormed →
    (opened : Nat) →
    (atom.node opened).RegularThroughout
  | .plain char, _, _ => regularThroughout_plainNode char
  | .escape char, _, _ => regularThroughout_escapeNode char
  | .set negated members, formed, _ => by
      refine Regular.throughout ⟨nodup_eraseDups members, ?_, ?_⟩ rfl
      · exact fun closes => formed.1 (List.mem_eraseDups.mp closes)
      · intro plain
        rw [head?_eraseDups]
        exact formed.2 plain
  | .group body, formed, opened =>
      regularThroughout_iff.mpr
        ⟨trivial,
          List.forall_mem_singleton.mpr
            (Alternation.regularThroughout_node body formed (opened + 1))⟩

theorem Items.regularThroughout_nodes :
    (items : Items) →
    items.WellFormed →
    (opened : Nat) →
    ∀ item ∈ items.nodes opened, item.RegularThroughout
  | .nil, _, _ => List.forall_mem_nil _
  | .cons atom kind? rest, formed, opened =>
      List.forall_mem_cons.mpr
        ⟨regularThroughout_repeated (atom.node_single opened)
            (Atom.regularThroughout_node atom formed.1 opened) kind?,
          Items.regularThroughout_nodes rest formed.2.1 _⟩

theorem Branches.regularThroughout_nodes :
    (branches : Branches) →
    branches.WellFormed →
    (opened : Nat) →
    ∀ branch ∈ branches.nodes opened, branch.RegularThroughout
  | .nil, _, _ => List.forall_mem_nil _
  | .cons branch rest, formed, opened =>
      List.forall_mem_cons.mpr
        ⟨regularThroughout_chained Items.nodes_single
            (Items.regularThroughout_nodes branch formed.2.1 opened),
          Branches.regularThroughout_nodes rest formed.2.2 _⟩

/-- The tree of a well-formed spelling is regular throughout. -/
theorem Alternation.regularThroughout_node :
    (spelling : Alternation) →
    spelling.WellFormed →
    (opened : Nat) →
    (spelling.node opened).RegularThroughout
  | .of first further, formed, opened => by
      obtain ⟨firstFormed, furtherFormed, nonempty⟩ := formed
      refine regularThroughout_alternated ?_ ?_
      · intro branched
        have several : further ≠ .nil := by
          rintro rfl
          exact branched rfl
        exact
          List.forall_mem_cons.mpr
            ⟨Items.chained_single (nonempty several) opened,
              Branches.nodes_single furtherFormed⟩
      · exact
          List.forall_mem_cons.mpr
            ⟨regularThroughout_chained Items.nodes_single
                (Items.regularThroughout_nodes first firstFormed opened),
              Branches.regularThroughout_nodes further furtherFormed _⟩

end

end Spelling

namespace Pattern

/-- Compiled trees are canonical, with as many groups as the pattern counts. -/
theorem canonical_of_compile
    {text : String}
    {pattern : Pattern}
    (compiled : compile text = .ok pattern) :
    pattern.root.Canonical pattern.groupCount := by
  have numbered := groupIndices_of_compile compiled
  obtain ⟨spelling, ⟨formed, -⟩, rfl⟩ := spells_of_compile compiled
  have throughout := spelling.regularThroughout_node formed 0
  exact ⟨numbered, throughout, throughout.emptyAlone⟩

end Pattern

end LineSearch
