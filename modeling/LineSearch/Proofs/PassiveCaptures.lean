import LineSearch.Proofs.EmptyCapture
import Mathlib

namespace LineSearch

/-!
# Captures that nothing refers to

A tree without back references never looks at its slots.  What it has captured
has no influence on where its ways end, and the order of the ways is the same
from any slots.

Its groups are then of no use but one: a group turns the ways of a greedy body
around.  Without the group they come in another order, and a repetition around
it takes them up in that order.  But they end at the same places, and whether
and where a line matches depends on nothing else.
-/

namespace Node

variable {chars : Line} {node other : Node}

/-- Without back references the places where the ways end do not depend on the slots. -/
theorem map_offset_orderedPossibilities
    (backrefFree : node.backrefFree = true)
    (offset : Nat)
    (left right : Captures) :
    (orderedPossibilities chars node ⟨offset, left⟩).map Progress.offset =
      (orderedPossibilities chars node ⟨offset, right⟩).map
        Progress.offset := by
  let related (_ _ : Captures) : Prop := True
  have lockstep :
      List.Forall₂ (Progress.Alike related)
        (possibilities chars node ⟨offset, left⟩)
        (possibilities chars node ⟨offset, right⟩) :=
    forall₂_possibilities (fun _ _ _ => trivial) node
      (fun _ _ _ => Or.inl backrefFree) ⟨rfl, trivial⟩
  rw [← List.forall₂_eq_eq_eq, List.forall₂_map_left_iff,
    List.forall₂_map_right_iff]
  exact (forall₂_prefer node lockstep).imp fun way other alike => alike.offset

/-- Wherever a way of the first node ends, one of the second node ends, from any slots. -/
def EndsAmong (chars : Line) (node other : Node) : Prop :=
  ∀ start alike way : Progress,
    alike.offset = start.offset →
      way ∈ possibilities chars node start →
        ∃ reached ∈ possibilities chars other alike,
          reached.offset = way.offset

namespace EndsAmong

/-- A tree without back references does not tell one vector of slots from another. -/
theorem refl (backrefFree : node.backrefFree = true) :
    EndsAmong chars node node := by
  rintro ⟨_, left⟩ ⟨offset, right⟩ way rfl member
  have listed :
      way.offset ∈
        (orderedPossibilities chars node ⟨offset, left⟩).map
          Progress.offset :=
    List.mem_map_of_mem (mem_prefer.mpr member)
  rw [map_offset_orderedPossibilities backrefFree offset left right] at listed
  obtain ⟨reached, isReached, sameEnd⟩ := List.mem_map.mp listed
  exact ⟨reached, mem_prefer.mp isReached, sameEnd⟩

theorem concat
    {items others : List Node}
    (ofItems : List.Forall₂ (EndsAmong chars) items others) :
    EndsAmong chars (.concat items) (.concat others) := by
  induction ofItems with
  | nil =>
      intro start alike way same member
      obtain rfl := mem_concat_nil.mp member
      exact ⟨alike, mem_concat_nil.mpr rfl, same⟩
  | cons ofItem _ ofRest =>
      intro start alike way same member
      obtain ⟨middle, before, after⟩ := mem_concat_cons.mp member
      obtain ⟨between, isBetween, level⟩ :=
        ofItem start alike middle same before
      obtain ⟨reached, isReached, sameEnd⟩ :=
        ofRest middle between way level after
      exact
        ⟨reached, mem_concat_cons.mpr ⟨between, isBetween, isReached⟩,
          sameEnd⟩

theorem alternation
    {branches others : List Node}
    (ofBranches :
      ∀ branch ∈ branches, ∃ other ∈ others, EndsAmong chars branch other) :
    EndsAmong chars (.alternation branches) (.alternation others) := by
  intro start alike way same member
  obtain ⟨branch, among, ofBranch⟩ := mem_alternation.mp member
  obtain ⟨other, isOther, endsAmong⟩ := ofBranches branch among
  obtain ⟨reached, isReached, sameEnd⟩ :=
    endsAmong start alike way same ofBranch
  exact
    ⟨reached, mem_alternation.mpr ⟨other, isOther, isReached⟩, sameEnd⟩

/-- Occurrence for occurrence, the second repetition keeps level with the first. -/
theorem repetition
    (ofBody : EndsAmong chars node other)
    (kind : RepeatKind)
    (greedy : Bool) :
    EndsAmong chars (.repetition node kind greedy)
      (.repetition other kind greedy) := by
  intro start alike way same member
  induction start using Unroll.walk.induct chars.size
      generalizing kind alike with
  | case1 start inductionHypothesis =>
      rcases mem_repetition.mp member with
        ⟨allowed, rfl⟩ | ⟨next, isNext, rfl | ⟨allowed, advanced, further⟩⟩
      · exact ⟨alike, mem_repetition.mpr (Or.inl ⟨allowed, rfl⟩), same⟩
      · obtain ⟨reached, isReached, sameEnd⟩ :=
          ofBody start alike way same isNext
        exact
          ⟨reached,
            mem_repetition.mpr (Or.inr ⟨reached, isReached, Or.inl rfl⟩),
            sameEnd⟩
      · obtain ⟨between, isBetween, level⟩ :=
          ofBody start alike next same isNext
        have advances :
            Unroll.advances chars.size alike between = true :=
          (Unroll.advances_congr same level).trans advanced
        obtain ⟨reached, isReached, sameEnd⟩ :=
          inductionHypothesis next advanced .zeroOrMore between level further
        exact
          ⟨reached,
            mem_repetition.mpr
              (Or.inr
                ⟨between, isBetween, Or.inr ⟨allowed, advances, isReached⟩⟩),
            sameEnd⟩

theorem ofGroup
    (index : Nat)
    (ofBody : EndsAmong chars node other) :
    EndsAmong chars (.group index node) other := by
  intro start alike way same member
  obtain ⟨inner, isInner, rfl⟩ := mem_group.mp member
  exact ofBody start alike inner same isInner

theorem inGroup
    (index : Nat)
    (ofBody : EndsAmong chars node other) :
    EndsAmong chars node (.group index other) := by
  intro start alike way same member
  obtain ⟨reached, isReached, sameEnd⟩ := ofBody start alike way same member
  exact ⟨_, mem_group.mpr ⟨reached, isReached, rfl⟩, sameEnd⟩

end EndsAmong

mutual

/-- The tree with every group replaced by its body. -/
def ungrouped : Node → Node
  | .concat items => .concat (ungroupedAll items)
  | .alternation branches => .alternation (ungroupedAll branches)
  | .repetition body kind greedy => .repetition body.ungrouped kind greedy
  | .group _ body => body.ungrouped
  | .literal char => .literal char
  | .dot => .dot
  | .charClass kind => .charClass kind
  | .set members => .set members
  | .anchor place => .anchor place
  | .backref index => .backref index

/-- These trees with every group replaced by its body. -/
def ungroupedAll : List Node → List Node
  | [] => []
  | tree :: rest => tree.ungrouped :: ungroupedAll rest

end

theorem ungroupedAll_eq_map (trees : List Node) :
    ungroupedAll trees = trees.map ungrouped := by
  induction trees with
  | nil => rfl
  | cons tree rest inductionHypothesis =>
      rw [ungroupedAll, inductionHypothesis, List.map_cons]

/-- With and without its groups a tree's ways end at the same places. -/
theorem endsAmong_ungrouped
    (node : Node)
    (backrefFree : node.backrefFree = true) :
    EndsAmong chars node node.ungrouped ∧
      EndsAmong chars node.ungrouped node := by
  induction node using treeInduction with
  | single node test tested =>
      have same : node.ungrouped = node := by
        cases node <;> first | rfl | cases tested
      rw [same]
      exact ⟨.refl backrefFree, .refl backrefFree⟩
  | anchor place =>
      rw [ungrouped]
      exact ⟨.refl backrefFree, .refl backrefFree⟩
  | concat items inductionHypothesis =>
      have ofItems (item : Node) (among : item ∈ items) :=
        inductionHypothesis item among ((all_iff.mp backrefFree).2 item among)
      rw [ungrouped, ungroupedAll_eq_map]
      constructor
      · refine .concat (List.forall₂_map_right_iff.mpr ?_)
        exact List.forall₂_same.mpr fun item among => (ofItems item among).1
      · refine .concat (List.forall₂_map_left_iff.mpr ?_)
        exact List.forall₂_same.mpr fun item among => (ofItems item among).2
  | alternation branches inductionHypothesis =>
      have ofBranches (branch : Node) (among : branch ∈ branches) :=
        inductionHypothesis branch among
          ((all_iff.mp backrefFree).2 branch among)
      rw [ungrouped, ungroupedAll_eq_map]
      constructor
      · refine .alternation fun branch among => ?_
        exact
          ⟨branch.ungrouped, List.mem_map_of_mem among,
            (ofBranches branch among).1⟩
      · refine .alternation fun plain among => ?_
        obtain ⟨branch, isBranch, rfl⟩ := List.mem_map.mp among
        exact ⟨branch, isBranch, (ofBranches branch isBranch).2⟩
  | repetition body kind greedy inductionHypothesis =>
      obtain ⟨there, back⟩ :=
        inductionHypothesis
          ((all_iff.mp backrefFree).2 body List.mem_cons_self)
      rw [ungrouped]
      exact ⟨there.repetition kind greedy, back.repetition kind greedy⟩
  | group index body inductionHypothesis =>
      obtain ⟨there, back⟩ :=
        inductionHypothesis
          ((all_iff.mp backrefFree).2 body List.mem_cons_self)
      rw [ungrouped]
      exact ⟨there.ofGroup index, back.inGroup index⟩
  | backref index => cases (all_iff.mp backrefFree).1

end Node

namespace Pattern

open Node

variable {pattern other : Pattern}

/-- The reported start is the first offset that admits a match. -/
theorem map_start_find?
    (pattern : Pattern)
    (chars : Line) :
    (pattern.find? chars).map Found.start =
      (List.range (pattern.lastStart chars + 1)).find? fun offset =>
        (pattern.matchAt? chars offset).isSome := by
  rw [find?, List.map_findSome?]
  induction List.range (pattern.lastStart chars + 1) with
  | nil => rfl
  | cons offset rest inductionHypothesis =>
      rw [List.findSome?_cons, List.find?_cons, inductionHypothesis,
        Function.comp_apply]
      cases pattern.matchAt? chars offset <;> rfl

theorem matched_eq_find?
    (pattern : Pattern)
    (text : String) :
    (pattern.matchLine text).matched =
      ((pattern.find? (Line.ofText text)).map Found.start).isSome := by
  rw [matchLine]
  cases pattern.find? (Line.ofText text) <;> rfl

theorem start_eq_find?
    (pattern : Pattern)
    (text : String) :
    (pattern.matchLine text).start =
      ((pattern.find? (Line.ofText text)).map Found.start).getD 0 := by
  rw [matchLine]
  cases pattern.find? (Line.ofText text) <;> rfl

/-- Patterns that can be matched at the same offsets report the same start. -/
theorem start_eq_of_matchAt?_isSome
    {text : String}
    (sameLast :
      pattern.lastStart (Line.ofText text) =
        other.lastStart (Line.ofText text))
    (sameOffsets :
      ∀ offset,
        (pattern.matchAt? (Line.ofText text) offset).isSome =
          (other.matchAt? (Line.ofText text) offset).isSome) :
    (pattern.matchLine text).matched = (other.matchLine text).matched ∧
      (pattern.matchLine text).start = (other.matchLine text).start := by
  have sameFound :
      (pattern.find? (Line.ofText text)).map Found.start =
        (other.find? (Line.ofText text)).map Found.start := by
    rw [map_start_find?, map_start_find?, sameLast]
    exact congrArg (List.find? · _) (funext sameOffsets)
  rw [matched_eq_find?, matched_eq_find?, start_eq_find?, start_eq_find?,
    sameFound]
  exact ⟨rfl, rfl⟩

/-- Where a tree matches, a tree that ends at the same places matches as well. -/
theorem matchAt?_isSome_of_endsAmong
    {chars : Line}
    {offset : Nat}
    (endsAmong : EndsAmong chars pattern.root other.root)
    (admits : (pattern.matchAt? chars offset).isSome = true) :
    (other.matchAt? chars offset).isSome = true := by
  obtain ⟨final, preferred⟩ := Option.isSome_iff_exists.mp admits
  obtain ⟨reached, isReached, _⟩ :=
    endsAmong (pattern.begin offset) (other.begin offset) final rfl
      (mem_of_matchAt? preferred)
  rw [Option.isSome_iff_ne_none]
  intro nothing
  exact matchAt?_eq_none_iff.mp nothing reached isReached

/--
Without back references captures are passive.  The places where the ways of a
tree end are listed alike from any slots, in order and as often.  And a pattern
without its groups, however many slots it is given, matches the same lines, from
the same offsets on.
-/
theorem captures_are_passive_without_references
    {node : Node}
    (backrefFree : node.backrefFree = true) :
    (∀ (chars : Line) (offset : Nat) (left right : Captures),
      (orderedPossibilities chars node ⟨offset, left⟩).map
          Progress.offset =
        (orderedPossibilities chars node ⟨offset, right⟩).map
          Progress.offset) ∧
      ∀ (pattern : Pattern) (groupCount : Nat) (text : String),
        pattern.root = node →
          let plain : Pattern :=
            { pattern with
              root := node.ungrouped
              groupCount := groupCount }
          (plain.matchLine text).matched = (pattern.matchLine text).matched ∧
            (plain.matchLine text).start = (pattern.matchLine text).start := by
  constructor
  · intro chars offset left right
    exact map_offset_orderedPossibilities backrefFree offset left right
  · rintro pattern groupCount text rfl plain
    refine start_eq_of_matchAt?_isSome rfl fun offset => ?_
    obtain ⟨there, back⟩ := endsAmong_ungrouped pattern.root backrefFree
    rw [Bool.eq_iff_iff]
    exact
      ⟨matchAt?_isSome_of_endsAmong back, matchAt?_isSome_of_endsAmong there⟩

/-- Without its group the body is no longer turned around, and the match ends elsewhere. -/
theorem captures_are_passive_without_references_in_another_order :
    let letters : Node := .repetition (.literal 'a') .oneOrMore true
    let grouped : Pattern :=
      { root :=
          .concat
            [.literal 'b', .repetition (.group 1 letters) .zeroOrOne true]
        groupCount := 1
        anchoredStart := false
        source := "b(a+)?" }
    let plain : Pattern :=
      { grouped with root := grouped.root.ungrouped, groupCount := 0 }
    grouped.root.backrefFree = true ∧
      plain.root =
        .concat [.literal 'b', .repetition letters .zeroOrOne true] ∧
      (grouped.matchLine "abaa").stop = 3 ∧
      (plain.matchLine "abaa").stop = 4 ∧
      (plain.matchLine "abaa").matched =
        (grouped.matchLine "abaa").matched ∧
      (plain.matchLine "abaa").start = (grouped.matchLine "abaa").start ∧
      (orderedPossibilities (Line.ofText "abaa") grouped.root
            ⟨1, #[none, none]⟩).map
          Progress.offset =
        (orderedPossibilities (Line.ofText "abaa") grouped.root
            ⟨1, #[]⟩).map
          Progress.offset := by
  intro letters grouped plain
  have backrefFree : grouped.root.backrefFree = true := by
    decide
  obtain ⟨sameEnds, sameStart⟩ :=
    captures_are_passive_without_references backrefFree
  obtain ⟨matched, start⟩ := sameStart grouped 0 "abaa" rfl
  exact
    ⟨backrefFree, rfl, by cbv, by cbv, matched, start,
      sameEnds (Line.ofText "abaa") 1 #[none, none] #[]⟩

end Pattern

end LineSearch
