import LineSearch.Proofs.CanonicalTree
import LineSearch.Proofs.Ways

namespace LineSearch

/-!
# Writing trees as pattern texts

Every tree of the canonical shape is compiled from some text.  The text is the
tree written out, with a backslash in front of each literal that would mean
something else without one.  With what is known of compiled trees, the canonical
ones are exactly those that are compiled from texts.
-/

namespace Node

/-- The characters that stand for something else where an item begins. -/
def metacharacters : List Char :=
  ['\\', '.', '^', '$', '(', ')', '[', '|', '?', '*', '+']

mutual

/-- A tree written as a pattern text. -/
def written : Node → List Char
  | .literal char =>
      if char ∈ metacharacters then ['\\', char] else [char]
  | .dot => ['.']
  | .charClass .digit => ['\\', 'd']
  | .charClass .word => ['\\', 'w']
  | .set members =>
      '[' :: (if members.negated then ['^'] else []) ++ members.chars ++ [']']
  | .anchor .lineStart => ['^']
  | .anchor .lineEnd => ['$']
  | .concat items => (writtenAll items).flatten
  | .alternation branches => List.intercalate ['|'] (writtenAll branches)
  | .repetition body kind _ => written body ++ [kind.sign]
  | .group _ body => '(' :: written body ++ [')']
  | .backref index => ['\\', index.digitChar]

/-- Every tree of a list, each written as a pattern text. -/
def writtenAll : List Node → List (List Char)
  | [] => []
  | node :: rest => written node :: writtenAll rest

end

example :
    String.ofList
        (written
          (.concat
            [.repetition
                (.group 1 (.alternation [.literal 'a', .literal '*']))
                .oneOrMore true,
              .set ⟨['^', 'b'], true⟩, .backref 1])) =
      "(a|\\*)+[^^b]\\1" := by
  decide

theorem writtenAll_eq_map (nodes : List Node) :
    writtenAll nodes = nodes.map written := by
  induction nodes with
  | nil => rfl
  | cons node rest inductionHypothesis =>
      rw [writtenAll, inductionHypothesis, List.map_cons]

/-- The first branch is written as it is, and each further one behind a bar. -/
theorem intercalate_cons
    (first : List Char)
    (further : List (List Char)) :
    List.intercalate ['|'] (first :: further) =
      first ++ further.flatMap ('|' :: ·) := by
  induction further generalizing first with
  | nil => simp [List.intercalate]
  | cons second later inductionHypothesis =>
      have onward := inductionHypothesis second
      simp only [List.intercalate] at onward ⊢
      rw [List.intersperse_cons_cons, List.flatten_cons, List.flatten_cons,
        onward, List.flatMap_cons]
      rfl

/-- What is neither a repetition nor put together from items or branches is written with some character. -/
theorem written_ne_nil
    {node : Node}
    (single :
      node.isRepetition = false ∧
        node.isConcat = false ∧
        node.isAlternation = false) :
    node.written ≠ [] := by
  cases node with
  | literal char =>
      rw [written]
      split <;> exact List.cons_ne_nil _ _
  | charClass kind => cases kind <;> exact List.cons_ne_nil _ _
  | anchor place => cases place <;> exact List.cons_ne_nil _ _
  | dot | set | group | backref => exact List.cons_ne_nil _ _
  | repetition body kind greedy => cases single.1
  | concat items => cases single.2.1
  | alternation branches => cases single.2.2

/-- A text begins with a character only if its first part does or is empty. -/
private theorem head?_append_ne
    {char : Char}
    {first second : List Char}
    (notFirst : first.head? ≠ some char)
    (behind : first = [] → second.head? ≠ some char) :
    (first ++ second).head? ≠ some char := by
  cases first with
  | nil => exact behind rfl
  | cons other rest => exact notFirst

private theorem head?_flatten_ne
    {char : Char}
    {texts : List (List Char)}
    (none : ∀ text ∈ texts, text.head? ≠ some char) :
    texts.flatten.head? ≠ some char := by
  induction texts with
  | nil => exact nofun
  | cons text rest inductionHypothesis =>
      obtain ⟨here, later⟩ := List.forall_mem_cons.mp none
      exact head?_append_ne here fun _ => inductionHypothesis later

/-- A repetition sign in front of which nothing stands is written with a backslash. -/
private theorem head?_literal_ne_sign
    (char : Char)
    (kind : RepeatKind) :
    (Node.literal char).written.head? ≠ some kind.sign := by
  have isMeta : kind.sign ∈ metacharacters := by
    cases kind <;> decide
  rw [written]
  split
  · cases kind <;> exact nofun
  · next plain =>
      intro isSign
      exact plain (Option.some.inj isSign ▸ isMeta)

/-- No written tree begins with a repetition sign, which would go to what is in front of it. -/
theorem head?_written_ne_sign
    {node : Node}
    (throughout : node.RegularThroughout)
    (kind : RepeatKind) :
    node.written.head? ≠ some kind.sign := by
  obtain ⟨regular, ofParts⟩ := regularThroughout_iff.mp throughout
  induction node using treeInduction with
  | single node test tested =>
      cases node with
      | literal char => exact head?_literal_ne_sign char kind
      | charClass class_ => cases class_ <;> cases kind <;> exact nofun
      | dot | set => cases kind <;> exact nofun
      | _ => cases tested
  | anchor place => cases place <;> cases kind <;> exact nofun
  | concat items inductionHypothesis =>
      rw [written, writtenAll_eq_map]
      refine head?_flatten_ne fun text isItem => ?_
      obtain ⟨item, member, rfl⟩ := List.mem_map.mp isItem
      have ofItem := ofParts item member
      obtain ⟨itemRegular, ofItemParts⟩ := regularThroughout_iff.mp ofItem
      exact inductionHypothesis item member ofItem itemRegular ofItemParts
  | alternation branches inductionHypothesis =>
      cases branches with
      | nil => exact nofun
      | cons first further =>
          have ofFirst := ofParts first List.mem_cons_self
          obtain ⟨firstRegular, ofFirstParts⟩ :=
            regularThroughout_iff.mp ofFirst
          rw [written, writtenAll, intercalate_cons]
          refine
            head?_append_ne
              (inductionHypothesis first List.mem_cons_self ofFirst
                firstRegular ofFirstParts) fun _ => ?_
          cases further <;> cases kind <;> exact nofun
  | repetition body ownKind greedy inductionHypothesis =>
      have ofBody := ofParts body (List.mem_singleton_self body)
      obtain ⟨bodyRegular, ofBodyParts⟩ := regularThroughout_iff.mp ofBody
      exact
        head?_append_ne
          (inductionHypothesis ofBody bodyRegular ofBodyParts)
          fun nothing => (written_ne_nil regular.2 nothing).elim
  | group | backref => cases kind <;> exact nofun

/-- These are numbers one after the other, beginning behind this one. -/
def Numbered (opened : Nat) (indices : List Nat) : Prop :=
  indices = List.range' (opened + 1) indices.length

theorem numbered_append
    {opened : Nat}
    {first second : List Nat} :
    Numbered opened (first ++ second) ↔
      Numbered opened first ∧ Numbered (opened + first.length) second := by
  unfold Numbered
  constructor
  · intro whole
    rw [eq_comm, List.range'_eq_append_iff] at whole
    obtain ⟨size, bounded, isFirst, isSecond⟩ := whole
    have sameSize : first.length = size := by
      rw [isFirst, List.length_range']
    subst sameSize
    refine ⟨isFirst, ?_⟩
    rwa [List.length_append, Nat.add_sub_cancel_left, Nat.mul_one,
      Nat.add_right_comm] at isSecond
  · rintro ⟨isFirst, isSecond⟩
    rw [List.length_append, ← List.range'_append_1, ← isFirst,
      Nat.add_right_comm, ← isSecond]

theorem numbered_cons
    {opened index : Nat}
    {rest : List Nat} :
    Numbered opened (index :: rest) ↔
      index = opened + 1 ∧ Numbered (opened + 1) rest := by
  rw [Numbered, List.length_cons, List.range'_succ, List.cons.injEq]
  rfl

end Node

namespace Spelling

open Node

/-- A spelling of this tree, behind this many groups, by the text that the tree is written as. -/
structure Alternation.Denotes
    (spelling : Alternation)
    (opened : Nat)
    (node : Node) : Prop where
  formed : spelling.WellFormed
  text : spelling.text = node.written
  node : spelling.node opened = node

/-- An atom by itself is a spelling of what it stands for. -/
theorem Atom.denotes
    (atom : Atom)
    {opened : Nat}
    {node : Node}
    (formed : atom.WellFormed)
    (text : atom.text = node.written)
    (same : atom.node opened = node) :
    (Alternation.of (.cons atom none .nil) .nil).Denotes opened node where
  formed := ⟨⟨formed, trivial, fun _ _ => nofun⟩, trivial, nofun⟩
  text := by
    simp [Alternation.text, Items.text, Branches.text, text]
  node := same

/-- A tree that is no alternation is spelt without a bar. -/
theorem Alternation.Denotes.items
    {spelling : Alternation}
    {opened : Nat}
    {node : Node}
    (denotes : spelling.Denotes opened node)
    (noAlternation : node.isAlternation = false) :
    ∃ items : Items,
      items.WellFormed ∧
        items.text = node.written ∧
        chained (items.nodes opened) = node := by
  obtain ⟨formed, text, same⟩ := denotes
  cases spelling with
  | of first further =>
      cases further with
      | nil =>
          refine ⟨first, formed.1, ?_, same⟩
          rw [← text, Alternation.text, Branches.text, List.append_nil]
      | cons branch later =>
          rw [← same] at noAlternation
          cases noAlternation

/-- A tree that is neither an alternation nor a concatenation is spelt by one item. -/
theorem Alternation.Denotes.item
    {spelling : Alternation}
    {opened : Nat}
    {node : Node}
    (denotes : spelling.Denotes opened node)
    (single : node.isConcat = false ∧ node.isAlternation = false) :
    ∃ (atom : Atom) (kind? : Option RepeatKind),
      atom.WellFormed ∧
        atom.text ++ (kind?.map RepeatKind.sign).toList = node.written ∧
        repeated (atom.node opened) kind? = node := by
  obtain ⟨items, formed, text, same⟩ := denotes.items single.2
  match items with
  | .nil =>
      rw [← same] at single
      cases single.1
  | .cons atom kind? .nil =>
      refine ⟨atom, kind?, formed.1, ?_, same⟩
      rw [← text, Items.text, Items.text, List.append_nil]
  | .cons _ _ (.cons _ _ _) =>
      rw [← same] at single
      cases single.1

/-- A tree that is no repetition either is spelt by one atom. -/
theorem Alternation.Denotes.atom
    {spelling : Alternation}
    {opened : Nat}
    {node : Node}
    (denotes : spelling.Denotes opened node)
    (single :
      node.isRepetition = false ∧
        node.isConcat = false ∧
        node.isAlternation = false) :
    ∃ atom : Atom,
      atom.WellFormed ∧
        atom.text = node.written ∧
        atom.node opened = node := by
  obtain ⟨atom, kind?, formed, text, same⟩ := denotes.item single.2
  cases kind? with
  | none => exact ⟨atom, formed, (List.append_nil _).symm.trans text, same⟩
  | some kind =>
      rw [← same] at single
      cases single.1

/-- This tree can be spelt behind any number of groups from which its own numbers go on. -/
def Spellable (node : Node) : Prop :=
  node.RegularThroughout →
    ∀ opened,
      Numbered opened node.groupIndices →
        ∃ spelling : Alternation, spelling.Denotes opened node

/-- A list of trees each of which is spelt by one item is spelt item by item. -/
theorem exists_items
    {nodes : List Node}
    (single :
      ∀ node ∈ nodes,
        node.isConcat = false ∧ node.isAlternation = false)
    (throughout : ∀ node ∈ nodes, node.RegularThroughout)
    (spellable : ∀ node ∈ nodes, Spellable node)
    {opened : Nat}
    (numbered : Numbered opened (groupIndicesOfAll nodes)) :
    ∃ items : Items,
      items.WellFormed ∧
        items.text = (writtenAll nodes).flatten ∧
        items.nodes opened = nodes := by
  induction nodes generalizing opened with
  | nil => exact ⟨.nil, trivial, rfl, rfl⟩
  | cons node rest inductionHypothesis =>
      obtain ⟨singleHere, singleRest⟩ := List.forall_mem_cons.mp single
      obtain ⟨here, throughoutRest⟩ := List.forall_mem_cons.mp throughout
      obtain ⟨spellableHere, spellableRest⟩ :=
        List.forall_mem_cons.mp spellable
      obtain ⟨numberedHere, numberedRest⟩ := numbered_append.mp numbered
      obtain ⟨spelling, denotes⟩ := spellableHere here opened numberedHere
      obtain ⟨atom, kind?, formed, text, same⟩ := denotes.item singleHere
      have groups : atom.groups = node.groupIndices.length := by
        rw [← same, groupIndices_repeated, Atom.groupIndices_node,
          List.length_range']
      obtain ⟨items, itemsFormed, itemsText, sameItems⟩ :=
        inductionHypothesis singleRest throughoutRest spellableRest numberedRest
      refine ⟨.cons atom kind? items, ⟨formed, itemsFormed, ?_⟩, ?_, ?_⟩
      · intro _ kind
        rw [itemsText, writtenAll_eq_map]
        refine head?_flatten_ne fun written isItem => ?_
        obtain ⟨item, member, rfl⟩ := List.mem_map.mp isItem
        exact head?_written_ne_sign (throughoutRest item member) kind
      · rw [Items.text, text, itemsText, writtenAll, List.flatten_cons]
      · rw [Items.nodes, same, groups, sameItems]

/-- A list of trees each of which is spelt without a bar is spelt branch by branch. -/
theorem exists_branches
    {nodes : List Node}
    (branched :
      ∀ node ∈ nodes, node.isAlternation = false ∧ node ≠ .empty)
    (throughout : ∀ node ∈ nodes, node.RegularThroughout)
    (spellable : ∀ node ∈ nodes, Spellable node)
    {opened : Nat}
    (numbered : Numbered opened (groupIndicesOfAll nodes)) :
    ∃ branches : Branches,
      branches.WellFormed ∧
        branches.text = (writtenAll nodes).flatMap ('|' :: ·) ∧
        branches.nodes opened = nodes := by
  induction nodes generalizing opened with
  | nil => exact ⟨.nil, trivial, rfl, rfl⟩
  | cons node rest inductionHypothesis =>
      obtain ⟨⟨noAlternation, nonempty⟩, branchedRest⟩ :=
        List.forall_mem_cons.mp branched
      obtain ⟨here, throughoutRest⟩ := List.forall_mem_cons.mp throughout
      obtain ⟨spellableHere, spellableRest⟩ :=
        List.forall_mem_cons.mp spellable
      obtain ⟨numberedHere, numberedRest⟩ := numbered_append.mp numbered
      obtain ⟨spelling, denotes⟩ := spellableHere here opened numberedHere
      obtain ⟨items, formed, text, same⟩ := denotes.items noAlternation
      have some : items ≠ .nil := by
        rintro rfl
        exact nonempty same.symm
      have groups : items.groups = node.groupIndices.length := by
        rw [← same, groupIndices_chained, Items.groupIndicesOfAll_nodes,
          List.length_range']
      obtain ⟨branches, branchesFormed, branchesText, sameBranches⟩ :=
        inductionHypothesis branchedRest throughoutRest spellableRest
          numberedRest
      refine
        ⟨.cons items branches, ⟨some, formed, branchesFormed⟩, ?_, ?_⟩
      · rw [Branches.text, text, branchesText, writtenAll, List.flatMap_cons]
      · rw [Branches.nodes, same, groups, sameBranches]

/-- Behind a backslash a metacharacter stands for itself. -/
theorem escapeNode_of_metacharacter
    {char : Char}
    (isMeta : char ∈ metacharacters) :
    escapeNode char = .literal char := by
  simp only [metacharacters, List.mem_cons, List.not_mem_nil, or_false]
    at isMeta
  rcases isMeta with
    rfl | rfl | rfl | rfl | rfl | rfl | rfl | rfl | rfl | rfl | rfl <;> rfl

/-- Any other character stands for itself where an item begins. -/
theorem plain_of_not_metacharacter
    {char : Char}
    (isPlain : char ∉ metacharacters) :
    (Atom.plain char).WellFormed ∧ plainNode char = .literal char := by
  simp only [metacharacters, List.mem_cons, List.not_mem_nil, or_false,
    not_or] at isPlain
  constructor
  · simp [Atom.WellFormed, isPlain]
  · unfold plainNode
    split
    · exact (isPlain.2.1 rfl).elim
    · exact (isPlain.2.2.1 rfl).elim
    · exact (isPlain.2.2.2.1 rfl).elim
    · rfl

theorem escapeNode_digitChar
    {index : Nat}
    (positive : 1 ≤ index)
    (small : index ≤ 9) :
    escapeNode index.digitChar = .backref index := by
  have digits :
      index = 1 ∨ index = 2 ∨ index = 3 ∨ index = 4 ∨ index = 5 ∨
        index = 6 ∨ index = 7 ∨ index = 8 ∨ index = 9 := by
    omega
  rcases digits with
    rfl | rfl | rfl | rfl | rfl | rfl | rfl | rfl | rfl <;> rfl

/-- A set that can be compiled is spelt by its members. -/
theorem spellable_set (members : CharSet) :
    Spellable (.set members) := by
  intro throughout opened _
  obtain ⟨once, unclosed, plain⟩ := throughout _ .self
  refine
    ⟨_, Atom.denotes (.set members.negated members.chars) ⟨unclosed, plain⟩
      rfl ?_⟩
  rw [Atom.node, eraseDups_of_nodup once]

theorem spellable_literal (char : Char) :
    Spellable (.literal char) := by
  intro _ opened _
  by_cases isMeta : char ∈ metacharacters
  · refine
      ⟨_, Atom.denotes (.escape char) trivial ?_
        (escapeNode_of_metacharacter isMeta)⟩
    rw [written, if_pos isMeta, Atom.text]
  · obtain ⟨formed, same⟩ := plain_of_not_metacharacter isMeta
    refine ⟨_, Atom.denotes (.plain char) formed ?_ same⟩
    rw [written, if_neg isMeta, Atom.text]

/-- Items that can be spelt are spelt one behind the other. -/
theorem spellable_concat
    {items : List Node}
    (ofEach : ∀ item ∈ items, Spellable item) :
    Spellable (.concat items) := by
  intro throughout opened numbered
  obtain ⟨⟨size, single⟩, ofItems⟩ := regularThroughout_iff.mp throughout
  obtain ⟨spelt, formed, text, same⟩ :=
    exists_items single ofItems ofEach numbered
  refine ⟨.of spelt .nil, ⟨formed, trivial, nofun⟩, ?_, ?_⟩
  · rw [Alternation.text, Branches.text, List.append_nil, text, written]
  · rw [Alternation.node, same]
    match items, size with
    | [], _ => rfl
    | [_], size => exact (by simp at size)
    | _ :: _ :: _, _ => rfl

/-- Branches that can be spelt are spelt with bars between them. -/
theorem spellable_alternation
    {branches : List Node}
    (ofEach : ∀ branch ∈ branches, Spellable branch) :
    Spellable (.alternation branches) := by
  intro throughout opened numbered
  obtain ⟨⟨size, branched⟩, ofBranches⟩ :=
    regularThroughout_iff.mp throughout
  match branches with
  | [] => exact (by simp at size)
  | [_] => exact (by simp at size)
  | first :: second :: later =>
      obtain ⟨spelt, formed, text, same⟩ :=
        exists_branches branched ofBranches ofEach numbered
      -- Only behind the first branch there are bars.
      cases spelt with
      | nil => cases same
      | cons items further =>
          obtain ⟨nonempty, itemsFormed, furtherFormed⟩ := formed
          obtain ⟨sameFirst, sameFurther⟩ := List.cons.inj same
          refine
            ⟨.of items further,
              ⟨itemsFormed, furtherFormed, fun _ => nonempty⟩, ?_, ?_⟩
          · rw [Alternation.text, written, writtenAll, intercalate_cons]
            exact (List.cons.inj text).2
          · rw [Alternation.node, sameFirst, sameFurther]
            rfl

/-- Every tree that is regular throughout can be spelt. -/
theorem spellable (node : Node) : Spellable node := by
  induction node using treeInduction with
  | single node test tested =>
      cases node with
      | literal char => exact spellable_literal char
      | dot =>
          exact fun _ _ _ =>
            ⟨_, Atom.denotes (.plain '.') (by decide) rfl rfl⟩
      | charClass kind =>
          intro _ opened _
          cases kind with
          | digit => exact ⟨_, Atom.denotes (.escape 'd') trivial rfl rfl⟩
          | word => exact ⟨_, Atom.denotes (.escape 'w') trivial rfl rfl⟩
      | set members => exact spellable_set members
      | _ => cases tested
  | anchor place =>
      intro _ opened _
      cases place with
      | lineStart => exact ⟨_, Atom.denotes (.plain '^') (by decide) rfl rfl⟩
      | lineEnd => exact ⟨_, Atom.denotes (.plain '$') (by decide) rfl rfl⟩
  | concat items inductionHypothesis =>
      exact spellable_concat inductionHypothesis
  | alternation branches inductionHypothesis =>
      exact spellable_alternation inductionHypothesis
  | repetition body kind greedy inductionHypothesis =>
      intro throughout opened numbered
      obtain ⟨⟨isGreedy, single⟩, ofBody⟩ := regularThroughout_iff.mp throughout
      obtain ⟨spelling, denotes⟩ :=
        inductionHypothesis (ofBody body (List.mem_singleton_self body)) opened
          numbered
      obtain ⟨atom, formed, text, same⟩ := denotes.atom single
      refine
        ⟨.of (.cons atom (some kind) .nil) .nil,
          ⟨⟨formed, trivial, nofun⟩, trivial, nofun⟩, ?_, ?_⟩
      · simp [Alternation.text, Items.text, Branches.text, text, written]
      · subst isGreedy
        exact congrArg (fun node => Node.repetition node kind true) same
  | group index body inductionHypothesis =>
      intro throughout opened numbered
      obtain ⟨rfl, numberedInside⟩ := numbered_cons.mp numbered
      have ofBody := (regularThroughout_iff.mp throughout).2
      obtain ⟨spelling, denotes⟩ :=
        inductionHypothesis (ofBody body (List.mem_singleton_self body))
          (opened + 1) numberedInside
      refine ⟨_, Atom.denotes (.group spelling) denotes.formed ?_ ?_⟩
      · rw [Atom.text, denotes.text, written]
      · exact congrArg (Node.group (opened + 1)) denotes.node
  | backref index =>
      intro throughout opened _
      obtain ⟨positive, small⟩ := throughout _ .self
      exact
        ⟨_, Atom.denotes (.escape index.digitChar) trivial rfl
          (escapeNode_digitChar positive small)⟩

end Spelling

namespace Pattern

/-- What a canonical tree is written as compiles to that tree. -/
theorem compile_written
    {root : Node}
    {groupCount : Nat}
    (canonical : root.Canonical groupCount) :
    ∃ pattern,
      compile (String.ofList root.written) = .ok pattern ∧
        pattern.root = root ∧
        pattern.groupCount = groupCount := by
  have numbered : Node.Numbered 0 root.groupIndices := by
    rw [Node.Numbered, canonical.numbered, List.length_range']
  obtain ⟨spelling, denotes⟩ :=
    Spelling.spellable root canonical.regular 0 numbered
  have spells : spelling.Spells (String.ofList root.written) :=
    ⟨denotes.formed, denotes.text.trans String.toList_ofList.symm⟩
  have compiled := compile_of_spells spells
  have sameRoot : (spelling.pattern (String.ofList root.written)).root = root :=
    denotes.node
  -- Both counts are the number of the groups of one tree.
  have sameCount := congrArg List.length (groupIndices_of_compile compiled)
  rw [sameRoot, canonical.numbered, List.length_range', List.length_range']
    at sameCount
  exact ⟨_, compiled, sameRoot, sameCount.symm⟩

/--
The trees that texts compile to are the canonical ones, with as many groups as
their patterns count, and every one of them is compiled from the text that it is
written as.
-/
theorem compiled_trees_are_canonical
    (root : Node)
    (groupCount : Nat) :
    ((∃ text pattern,
        compile text = .ok pattern ∧
          pattern.root = root ∧
          pattern.groupCount = groupCount) ↔
        root.Canonical groupCount) ∧
      (root.Canonical groupCount ↔
        ∃ pattern,
          compile (String.ofList root.written) = .ok pattern ∧
            pattern.root = root ∧
            pattern.groupCount = groupCount) := by
  have ofCompiled :
      (∃ text pattern,
        compile text = .ok pattern ∧
          pattern.root = root ∧
          pattern.groupCount = groupCount) →
        root.Canonical groupCount := by
    rintro ⟨text, pattern, compiled, rfl, rfl⟩
    exact canonical_of_compile compiled
  refine ⟨⟨ofCompiled, fun canonical => ?_⟩, compile_written, fun written => ?_⟩
  · exact ⟨_, compile_written canonical⟩
  · exact ofCompiled ⟨_, written⟩

end Pattern

end LineSearch
