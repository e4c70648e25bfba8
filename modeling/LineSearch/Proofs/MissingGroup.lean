import LineSearch.Proofs.PassiveCaptures

namespace LineSearch

/-!
# References to groups that do not exist

A text may refer to more groups than it has.  In a compiled pattern every group
has a slot and no slot is ever added, so such a reference finds nothing to copy,
wherever in a match it is asked.  It is as good as a set that admits no
character: what cannot do without it has no ways, and all else has the ways that
it has when the dead parts are left out.
-/

namespace Captures

/-- No slot beyond this one holds anything. -/
def VacantBeyond (last : Nat) (captures : Captures) : Prop :=
  ∀ index, last < index → captures.span? index = none

theorem VacantBeyond.record
    {last : Nat}
    {captures : Captures}
    (vacant : captures.VacantBeyond last)
    {index : Nat}
    (within : index ≤ last)
    (span : Span) :
    (captures.record index span).VacantBeyond last := by
  intro query beyond
  rw [span?_record, if_neg (Nat.ne_of_gt (Nat.lt_of_le_of_lt within beyond))]
  exact vacant query beyond

theorem VacantBeyond.of_size
    {last : Nat}
    {captures : Captures}
    (size : captures.size = last + 1) :
    captures.VacantBeyond last := by
  intro index beyond
  have absent : captures.size ≤ index := size ▸ beyond
  rw [span?, Array.getElem?_eq_none absent]
  rfl

/-- The same slots twice, of which none beyond this one holds anything. -/
def SameUpTo (last : Nat) (left right : Captures) : Prop :=
  left = right ∧ right.VacantBeyond last

end Captures

namespace Node

variable {chars : Line} {last : Nat} {left right start : Progress}

mutual

/--
The tree with each back reference beyond the last group replaced by a set that
admits nothing.
-/
def withoutMissing (last : Nat) : Node → Node
  | .backref index =>
      if last < index then .set ⟨[], false⟩ else .backref index
  | .concat items => .concat (withoutMissingAll last items)
  | .alternation branches => .alternation (withoutMissingAll last branches)
  | .repetition body kind greedy =>
      .repetition (body.withoutMissing last) kind greedy
  | .group index body => .group index (body.withoutMissing last)
  | .literal char => .literal char
  | .dot => .dot
  | .charClass kind => .charClass kind
  | .set members => .set members
  | .anchor place => .anchor place

/-- These trees with each back reference beyond the last group replaced. -/
def withoutMissingAll (last : Nat) : List Node → List Node
  | [] => []
  | tree :: rest => tree.withoutMissing last :: withoutMissingAll last rest

end

theorem withoutMissingAll_eq_map (trees : List Node) :
    withoutMissingAll last trees = trees.map (withoutMissing last) := by
  induction trees with
  | nil => rfl
  | cons tree rest inductionHypothesis =>
      rw [withoutMissingAll, inductionHypothesis, List.map_cons]

/-- What is replaced is no repetition and becomes none. -/
theorem prefer_withoutMissing
    (node : Node)
    (ways : List Progress) :
    prefer (node.withoutMissing last) ways = prefer node ways := by
  have same :
      (node.withoutMissing last).isGreedyRepeat = node.isGreedyRepeat := by
    cases node with
    | backref index =>
        rw [withoutMissing]
        split <;> rfl
    | _ => rfl
  rw [prefer, prefer, same]

/-- A set without members admits nothing. -/
theorem possibilities_emptySet :
    possibilities chars (.set ⟨[], false⟩) start = [] := by
  have tested :
      (Node.set ⟨[], false⟩).test? = some (CharSet.contains ⟨[], false⟩) :=
    rfl
  rw [possibilities_of_test? tested, Progress.consume]
  split
  · exact if_neg (by simp [CharSet.contains])
  · rfl

theorem possibilities_backref_of_unset
    {index : Nat}
    (unset : start.captures.span? index = none) :
    possibilities chars (.backref index) start = [] := by
  rw [possibilities, unset]

theorem forall₂_sequence_withoutMissing
    {items : List Node}
    (ofItems :
      ∀ item ∈ items, ∀ left right : Progress,
        left.Alike (Captures.SameUpTo last) right →
          List.Forall₂ (Progress.Alike (Captures.SameUpTo last))
            (possibilities chars (item.withoutMissing last) left)
            (possibilities chars item right))
    (alike : left.Alike (Captures.SameUpTo last) right) :
    List.Forall₂ (Progress.Alike (Captures.SameUpTo last))
      (sequence chars (items.map (withoutMissing last)) left)
      (sequence chars items right) := by
  induction items generalizing left right with
  | nil =>
      rw [List.map_nil, sequence, sequence]
      exact .cons alike .nil
  | cons item rest inductionHypothesis =>
      obtain ⟨ofItem, ofRest⟩ := List.forall_mem_cons.mp ofItems
      rw [List.map_cons, sequence, sequence, prefer_withoutMissing]
      refine
        List.rel_flatMap (forall₂_prefer item (ofItem left right alike)) ?_
      intro way other alikeWays
      exact inductionHypothesis ofRest alikeWays

/--
From the same slots, none of them beyond the last group set, a tree lists the
same ways with and without its references to missing groups, and they again lead
to slots of which none beyond the last group is set.
-/
theorem forall₂_withoutMissing
    (node : Node)
    (slots : ∀ index ∈ node.groupIndices, index ≤ last)
    (alike : left.Alike (Captures.SameUpTo last) right) :
    List.Forall₂ (Progress.Alike (Captures.SameUpTo last))
      (possibilities chars (node.withoutMissing last) left)
      (possibilities chars node right) := by
  induction node using treeInduction generalizing left right with
  | single node test tested =>
      have same : node.withoutMissing last = node := by
        cases node <;> first | rfl | cases tested
      rw [same, possibilities_of_test? tested, possibilities_of_test? tested]
      exact forall₂_consume test alike
  | anchor place =>
      cases place <;>
        rw [withoutMissing, possibilities, possibilities, ← alike.offset]
      all_goals exact forall₂_stay _ alike
  | concat items inductionHypothesis =>
      rw [withoutMissing, withoutMissingAll_eq_map, possibilities,
        possibilities]
      refine forall₂_sequence_withoutMissing ?_ alike
      intro item among left right alike
      exact
        inductionHypothesis item among
          (forall_groupIndices_of_mem slots among) alike
  | alternation branches inductionHypothesis =>
      rw [withoutMissing, withoutMissingAll_eq_map, possibilities,
        possibilities, choices_eq_flatMap, choices_eq_flatMap,
        List.flatMap_map]
      have sameBranches :
          List.Forall₂ (fun branch other => branch = other ∧ other ∈ branches)
            branches branches :=
        List.forall₂_same.mpr fun branch among => ⟨rfl, among⟩
      refine List.rel_flatMap sameBranches ?_
      rintro branch _ ⟨rfl, among⟩
      beta_reduce
      rw [orderedPossibilities, orderedPossibilities, prefer_withoutMissing]
      exact
        forall₂_prefer branch
          (inductionHypothesis branch among
            (forall_groupIndices_of_mem slots among) alike)
  | repetition body kind greedy inductionHypothesis =>
      have ofBody
          (left right : Progress)
          (alike : left.Alike (Captures.SameUpTo last) right) :=
        inductionHypothesis slots alike
      have further := forall₂_further chars.size ofBody left right alike
      rw [withoutMissing]
      cases kind with
      | zeroOrOne =>
          rw [possibilities, possibilities]
          exact .cons alike (ofBody left right alike)
      | zeroOrMore =>
          rw [possibilities_zeroOrMore, possibilities_zeroOrMore,
            Unroll.walk_eq, Unroll.walk_eq]
          exact .cons alike further
      | oneOrMore =>
          rw [possibilities_oneOrMore, possibilities_oneOrMore]
          exact further
  | group index body inductionHypothesis =>
      obtain ⟨own, inner⟩ := List.forall_mem_cons.mp slots
      rw [withoutMissing, possibilities, possibilities,
        prefer_withoutMissing]
      have ofBody := inductionHypothesis inner alike
      refine List.rel_map ?_ (forall₂_prefer body ofBody)
      intro way other alikeWays
      obtain ⟨same, vacant⟩ := alikeWays.captures
      refine ⟨alikeWays.offset, ?_, vacant.record own _⟩
      simp only [Progress.closeGroup, alike.offset, alikeWays.offset, same]
  | backref index =>
      obtain ⟨same, vacant⟩ := alike.captures
      rw [withoutMissing]
      split
      · next beyond =>
          rw [possibilities_emptySet,
            possibilities_backref_of_unset (vacant index beyond)]
          exact .nil
      · rw [possibilities, possibilities, same]
        split
        · exact forall₂_copy _ alike
        · exact .nil

/--
From slots of which none beyond the last group is set, the two trees list the
same, and no way sets a slot beyond the last group.
-/
theorem possibilities_withoutMissing
    {node : Node}
    (slots : ∀ index ∈ node.groupIndices, index ≤ last)
    (vacant : start.captures.VacantBeyond last) :
    possibilities chars (node.withoutMissing last) start =
        possibilities chars node start ∧
      ∀ way ∈ possibilities chars node start,
        way.captures.VacantBeyond last := by
  have lockstep :
      List.Forall₂ (Progress.Alike (Captures.SameUpTo last))
        (possibilities chars (node.withoutMissing last) start)
        (possibilities chars node start) :=
    forall₂_withoutMissing node slots ⟨rfl, rfl, vacant⟩
  have each :
      List.Forall₂
        (fun way other => way.captures.VacantBeyond last ∧ way = other)
        (possibilities chars (node.withoutMissing last) start)
        (possibilities chars node start) := by
    refine lockstep.imp fun way other alike => ?_
    rcases way with ⟨offset, captures⟩
    rcases other with ⟨otherOffset, otherCaptures⟩
    obtain ⟨rfl, rfl, stillVacant⟩ := alike
    exact ⟨stillVacant, rfl⟩
  obtain ⟨stillVacant, same⟩ := (List.forall₂_and_left _ _).mp each
  rw [List.forall₂_eq_eq_eq] at same
  exact ⟨same, same ▸ stillVacant⟩

mutual

/-- Does every way of the node have to copy what a group beyond the last one holds? -/
def needsMissing (last : Nat) : Node → Bool
  | .backref index => last < index
  | .concat items => anyNeedsMissing last items
  | .alternation branches => allNeedMissing last branches
  | .repetition body .oneOrMore _ => body.needsMissing last
  | .group _ body => body.needsMissing last
  | .repetition _ .zeroOrOne _ | .repetition _ .zeroOrMore _
  | .literal _ | .dot | .charClass _ | .set _ | .anchor _ => false

/-- Is there one of these nodes that cannot do without a missing group? -/
def anyNeedsMissing (last : Nat) : List Node → Bool
  | [] => false
  | item :: rest => item.needsMissing last || anyNeedsMissing last rest

/-- Can none of these nodes do without a missing group? -/
def allNeedMissing (last : Nat) : List Node → Bool
  | [] => true
  | branch :: rest => branch.needsMissing last && allNeedMissing last rest

end

theorem allNeedMissing_iff
    {branches : List Node} :
    allNeedMissing last branches = true ↔
      ∀ branch ∈ branches, branch.needsMissing last = true := by
  induction branches with
  | nil => simp [allNeedMissing]
  | cons branch rest inductionHypothesis =>
      simp [allNeedMissing, inductionHypothesis]

/-- An item that has no ways leaves the items around it without any. -/
theorem possibilities_concat_of_needsMissing
    {items : List Node}
    (ofItems :
      ∀ item ∈ items, item.needsMissing last = true →
        ∀ start : Progress, start.captures.VacantBeyond last →
          possibilities chars item start = [])
    (slots : ∀ index ∈ (concat items).groupIndices, index ≤ last)
    (needs : anyNeedsMissing last items = true)
    (vacant : start.captures.VacantBeyond last) :
    possibilities chars (.concat items) start = [] := by
  induction items generalizing start with
  | nil => cases needs
  | cons item rest inductionHypothesis =>
      obtain ⟨ofItem, ofRest⟩ := List.forall_mem_cons.mp ofItems
      obtain ⟨ofFirst, ofOthers⟩ := List.forall_mem_append.mp slots
      refine List.eq_nil_iff_forall_not_mem.mpr fun way member => ?_
      obtain ⟨middle, before, after⟩ := mem_concat_cons.mp member
      have stillVacant :=
        (possibilities_withoutMissing ofFirst vacant).2 middle before
      rcases Bool.or_eq_true_iff.mp needs with here | behind
      · rw [ofItem here start vacant] at before
        cases before
      · rw [inductionHypothesis ofRest ofOthers behind stillVacant] at after
        cases after

/-- What cannot do without a missing group has no ways. -/
theorem possibilities_of_needsMissing
    (node : Node)
    (slots : ∀ index ∈ node.groupIndices, index ≤ last)
    (needs : node.needsMissing last = true)
    (vacant : start.captures.VacantBeyond last) :
    possibilities chars node start = [] := by
  induction node using treeInduction generalizing start with
  | single node test tested => cases node <;> first | cases needs | cases tested
  | anchor place => cases needs
  | concat items inductionHypothesis =>
      refine possibilities_concat_of_needsMissing ?_ slots needs vacant
      intro item among itemNeeds start vacant
      exact
        inductionHypothesis item among
          (forall_groupIndices_of_mem slots among) itemNeeds vacant
  | alternation branches inductionHypothesis =>
      refine List.eq_nil_iff_forall_not_mem.mpr fun way member => ?_
      obtain ⟨branch, among, ofBranch⟩ := mem_alternation.mp member
      have branchNeeds := allNeedMissing_iff.mp needs branch among
      rw [inductionHypothesis branch among
        (forall_groupIndices_of_mem slots among) branchNeeds vacant] at ofBranch
      cases ofBranch
  | repetition body kind greedy inductionHypothesis =>
      cases kind with
      | zeroOrOne => cases needs
      | zeroOrMore => cases needs
      | oneOrMore =>
          rw [possibilities_oneOrMore, Unroll.successors,
            inductionHypothesis slots needs vacant]
          rfl
  | group index body inductionHypothesis =>
      obtain ⟨-, inner⟩ := List.forall_mem_cons.mp slots
      refine List.eq_nil_iff_forall_not_mem.mpr fun way member => ?_
      obtain ⟨ofBody, isOfBody, -⟩ := mem_group.mp member
      rw [inductionHypothesis inner needs vacant] at isOfBody
      cases isOfBody
  | backref index =>
      exact possibilities_backref_of_unset (vacant index (of_decide_eq_true needs))

/-- A repetition that may be left out is left out where its body has no ways. -/
theorem possibilities_repetition_of_nothing
    {body : Node}
    {kind : RepeatKind}
    (optional : kind ≠ .oneOrMore)
    (greedy : Bool)
    (nothing : possibilities chars body start = []) :
    possibilities chars (.repetition body kind greedy) start = [start] := by
  cases kind with
  | zeroOrOne => rw [possibilities, nothing]
  | zeroOrMore =>
      rw [possibilities_zeroOrMore, Unroll.walk_eq, Unroll.successors, nothing]
      rfl
  | oneOrMore => exact (optional rfl).elim

end Node

namespace Pattern

open Node

/-- Patterns that are matched alike at every offset have the same outcome on the line. -/
theorem matchLine_eq_of_matchAt?_eq
    {pattern other : Pattern}
    {text : String}
    (sameLast :
      pattern.lastStart (Line.ofText text) =
        other.lastStart (Line.ofText text))
    (same :
      ∀ offset,
        pattern.matchAt? (Line.ofText text) offset =
          other.matchAt? (Line.ofText text) offset) :
    pattern.matchLine text = other.matchLine text := by
  have sameFound :
      pattern.find? (Line.ofText text) = other.find? (Line.ofText text) := by
    rw [find?, find?, sameLast]
    simp only [same]
  rw [matchLine, matchLine, sameFound]

/--
In a compiled pattern a back reference beyond the last group is a node that never
matches.  Replaced by a set that admits nothing, wherever it stands in the tree,
it leaves the outcome on every line as it is.

So wherever such a reference is asked in the course of a match, it has no ways,
and neither has a node that cannot do without it; an alternation lists what its
other branches list, and a repetition that may be left out is left out.
-/
theorem missing_groups_never_match
    {text : String}
    {pattern : Pattern}
    (compiled : compile text = .ok pattern)
    (line : String) :
    let last := pattern.groupCount
    let chars := Line.ofText line
    let plain : Pattern :=
      { pattern with root := pattern.root.withoutMissing last }
    plain.matchLine line = pattern.matchLine line ∧
      ∀ offset node start,
        offset ≤ pattern.lastStart chars →
          Calls chars pattern.root (pattern.begin offset) node start →
            (node.needsMissing last = true →
                possibilities chars node start = []) ∧
              (∀ branches,
                node = .alternation branches →
                  possibilities chars node start =
                    possibilities chars
                      (.alternation
                        (branches.filter (!·.needsMissing last)))
                      start) ∧
              ∀ body kind greedy,
                node = .repetition body kind greedy →
                  kind ≠ .oneOrMore →
                    body.needsMissing last = true →
                      possibilities chars node start = [start] := by
  intro last chars plain
  obtain ⟨slots, -⟩ := slots_of_compile compiled
  have within (index : Nat) (present : index ∈ pattern.root.groupIndices) :
      index ≤ last :=
    Nat.le_of_lt_succ (slots index present)
  constructor
  · refine matchLine_eq_of_matchAt?_eq rfl fun offset => ?_
    have vacant : (pattern.begin offset).captures.VacantBeyond last :=
      .of_size (Captures.size_unset pattern.groupCount)
    have same :
        possibilities chars (pattern.root.withoutMissing last)
            (pattern.begin offset) =
          possibilities chars pattern.root (pattern.begin offset) :=
      (possibilities_withoutMissing within vacant).1
    rw [matchAt?, matchAt?, orderedPossibilities, orderedPossibilities,
      prefer_withoutMissing]
    exact congrArg (fun ways => (prefer pattern.root ways).head?) same
  · intro offset node start tried calls
    have vacant : start.captures.VacantBeyond last :=
      .of_size (size_captures_of_calls compiled tried calls).1
    have nodeWithin (index : Nat) (present : index ∈ node.groupIndices) :
        index ≤ last :=
      within index (calls.groupIndices_subset present)
    refine
      ⟨fun needs => possibilities_of_needsMissing node nodeWithin needs vacant,
        ?_, ?_⟩
    · rintro branches rfl
      rw [possibilities, possibilities, choices_eq_flatMap,
        choices_eq_flatMap]
      refine (flatMap_filter branches fun branch among dead => ?_).symm
      have nothing : possibilities chars branch start = [] :=
        possibilities_of_needsMissing branch
          (forall_groupIndices_of_mem nodeWithin among)
          (by simpa using dead) vacant
      rw [orderedPossibilities, nothing, prefer]
      split <;> rfl
    · rintro body kind greedy rfl optional needs
      exact
        possibilities_repetition_of_nothing optional greedy
          (possibilities_of_needsMissing body nodeWithin needs vacant)

/-- One reference is left out with the group around it, the other one with its branch. -/
theorem missing_groups_never_match_in_a_group_and_in_a_branch :
    let optional : Node :=
      .repetition (.group 1 (.concat [.literal 'a', .backref 2])) .zeroOrOne true
    let pattern : Pattern :=
      { root :=
          .alternation [.concat [optional, .literal 'b'], .backref 3]
        groupCount := 1
        anchoredStart := false
        source := "(a\\2)?b|\\3" }
    let plain : Pattern :=
      { pattern with root := pattern.root.withoutMissing 1 }
    let chars := Line.ofText "ab"
    compile "(a\\2)?b|\\3" = .ok pattern ∧
      plain.root =
        .alternation
          [.concat
            [.repetition
              (.group 1 (.concat [.literal 'a', .set ⟨[], false⟩]))
              .zeroOrOne true,
              .literal 'b'],
            .set ⟨[], false⟩] ∧
      plain.matchLine "ab" = pattern.matchLine "ab" ∧
      pattern.matchLine "ab" =
        { matched := true, start := 1, stop := 2, captures := ["", ""] } ∧
      possibilities chars pattern.root (pattern.begin 1) =
        possibilities chars
          (.alternation [.concat [optional, .literal 'b']])
          (pattern.begin 1) := by
  intro optional pattern plain chars
  have spells :
      Spelling.Alternation.Spells
        (.of
          (.cons
            (.group
              (.of
                (.cons (.plain 'a') none (.cons (.escape '2') none .nil))
                .nil))
            (some .zeroOrOne) (.cons (.plain 'b') none .nil))
          (.cons (.cons (.escape '3') none .nil) .nil))
        "(a\\2)?b|\\3" := by
    decide
  have compiled : compile "(a\\2)?b|\\3" = .ok pattern :=
    compile_of_spells spells
  obtain ⟨same, asked⟩ := missing_groups_never_match compiled "ab"
  obtain ⟨-, branches, -⟩ :=
    asked 1 pattern.root (pattern.begin 1) (by decide) .self
  exact ⟨compiled, rfl, same, by cbv, branches _ rfl⟩

end Pattern

end LineSearch
