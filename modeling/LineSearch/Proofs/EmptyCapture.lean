import LineSearch.Proofs.CanonicalTree
import LineSearch.Proofs.FreeRepetition
import LineSearch.Proofs.ReportedMatch
import Mathlib.Data.List.Forall2

namespace LineSearch

/-!
# An empty capture is as good as none

Back references are the only nodes that look at the slots, and they refer to no
empty text.  So it makes no difference whether a slot holds an empty stretch,
holds nothing, or is not there.

Two listings are compared in lockstep: from related progresses a node lists as
many ways, which end together and are again related.  One of the listings may
give up empty captures on the way, after any node and in any slots.
-/

namespace Captures

/-- Whatever text a slot holds in one of them it holds, at the same place, in the other. -/
def SameTexts (left right : Captures) : Prop :=
  left.HeldBy right ∧ right.HeldBy left

namespace SameTexts

theorem refl (captures : Captures) :
    captures.SameTexts captures :=
  ⟨.refl _, .refl _⟩

theorem trans
    {first second third : Captures}
    (front : first.SameTexts second)
    (back : second.SameTexts third) :
    first.SameTexts third :=
  ⟨front.1.trans back.1, back.2.trans front.2⟩

theorem record
    {left right : Captures}
    (same : left.SameTexts right)
    (index : Nat)
    (span : Span) :
    (left.record index span).SameTexts (right.record index span) :=
  ⟨same.1.record index span, same.2.record index span⟩

/-- The stretch that a slot holds, if it is not empty. -/
theorem filter_span?_eq
    {left right : Captures}
    (same : left.SameTexts right)
    (index : Nat) :
    (left.span? index).filter (·.length != 0) =
      (right.span? index).filter (·.length != 0) := by
  refine Option.ext fun span => ?_
  rw [Option.filter_eq_some_iff, Option.filter_eq_some_iff]
  refine and_congr_left fun length => ?_
  have nonempty : span.start < span.stop := by
    rw [bne_iff_ne, Span.length] at length
    omega
  exact
    ⟨fun held => same.1 index span held nonempty,
      fun held => same.2 index span held nonempty⟩

end SameTexts

/-- The slots, those of the chosen ones unset that hold an empty stretch. -/
def forget (chosen : Nat → Bool) (captures : Captures) : Captures :=
  captures.mapIdx fun index slot =>
    slot.filter fun span => !chosen index || span.length != 0

@[simp] theorem size_forget
    (chosen : Nat → Bool)
    (captures : Captures) :
    (captures.forget chosen).size = captures.size := by
  simp [forget]

theorem span?_forget
    (chosen : Nat → Bool)
    (captures : Captures)
    (index : Nat) :
    (captures.forget chosen).span? index =
      (captures.span? index).filter fun span =>
        !chosen index || span.length != 0 := by
  simp only [span?, forget, Array.getElem?_mapIdx]
  cases captures[index]? with
  | none => rfl
  | some slot => rfl

@[simp] theorem forget_nothing
    (captures : Captures) :
    captures.forget (fun _ => false) = captures := by
  refine Array.ext (by simp) fun index _ _ => ?_
  simp only [forget, Array.getElem_mapIdx]
  cases captures[index] <;> rfl

/-- Nothing is given up but empty stretches. -/
theorem forget_sameTexts
    (chosen : Nat → Bool)
    (captures : Captures) :
    (captures.forget chosen).SameTexts captures := by
  constructor
  · intro index span held nonempty
    rw [span?_forget, Option.filter_eq_some_iff] at held
    exact held.1
  · intro index span held nonempty
    rw [span?_forget, Option.filter_eq_some_iff]
    refine ⟨held, ?_⟩
    have length : span.length ≠ 0 := by
      simp only [Span.length]
      omega
    simp [length]

end Captures

namespace Progress

/-- The progress with empty captures given up in the chosen slots. -/
def forget (chosen : Nat → Bool) (progress : Progress) : Progress :=
  { progress with captures := progress.captures.forget chosen }

/-- Two progresses at one offset, with related slots. -/
structure Alike
    (related : Captures → Captures → Prop)
    (left right : Progress) : Prop where
  offset : left.offset = right.offset
  captures : related left.captures right.captures

end Progress

/-- Whether one progress advances on another shows in their offsets. -/
theorem Unroll.advances_congr
    {length : Nat}
    {before after otherBefore otherAfter : Progress}
    (sameBefore : before.offset = otherBefore.offset)
    (sameAfter : after.offset = otherAfter.offset) :
    advances length before after = advances length otherBefore otherAfter := by
  rw [advances, advances, sameBefore, sameAfter]

namespace Node

/-- The slots in which an empty capture is given up, for each way of each node. -/
abbrev Forgetting := Node → Progress → Nat → Bool

mutual

/-- Every way to match a node when empty captures are given up behind each node. -/
def possibilitiesForgetting
    (chosen : Forgetting)
    (chars : Line)
    (node : Node)
    (start : Progress) :
    List Progress :=
  let ways : List Progress :=
    match node with
    | .concat items => sequenceForgetting chosen chars items start
    | .alternation branches => choicesForgetting chosen chars branches start
    | .repetition body .zeroOrOne _ =>
        start :: possibilitiesForgetting chosen chars body start
    | .repetition body .zeroOrMore _ =>
        Unroll.unroll chars.size (possibilitiesForgetting chosen chars body)
          [(start, true)]
    | .repetition body .oneOrMore _ =>
        Unroll.unroll chars.size (possibilitiesForgetting chosen chars body)
          (Unroll.successors chars.size
            (possibilitiesForgetting chosen chars body) start)
    | .group index body =>
        (prefer body (possibilitiesForgetting chosen chars body start)).map
          (·.closeGroup index start.offset)
    | .literal _ | .dot | .charClass _ | .set _ | .anchor _ | .backref _ =>
        possibilities chars node start
  ways.map fun way => way.forget (chosen node way)

/-- Every way to match these nodes one after the other, giving up empty captures. -/
def sequenceForgetting
    (chosen : Forgetting)
    (chars : Line) :
    List Node → Progress → List Progress
  | [], start => [start]
  | item :: rest, start =>
      (prefer item (possibilitiesForgetting chosen chars item start)).flatMap
        (sequenceForgetting chosen chars rest)

/-- Every way to match one of these nodes, giving up empty captures. -/
def choicesForgetting
    (chosen : Forgetting)
    (chars : Line) :
    List Node → Progress → List Progress
  | [], _ => []
  | branch :: rest, start =>
      prefer branch (possibilitiesForgetting chosen chars branch start) ++
        choicesForgetting chosen chars rest start

end

section Lockstep

variable
  {chars : Line}
  {chosen : Forgetting}
  {related : Captures → Captures → Prop}
  {left right : Progress}
  {ways others : List Progress}

/-- What is asked of a relation between slots for matching to keep it. -/
structure Keeps
    (chosen : Forgetting)
    (related : Captures → Captures → Prop) : Prop where
  record :
    ∀ {left right} index span, related left right →
      related (left.record index span) (right.record index span)
  forget :
    ∀ {left right : Progress} node, related left.captures right.captures →
      related (left.forget (chosen node left)).captures right.captures

/-- Related slots hold the same texts, unless the tree refers to none. -/
def TextsAgree
    (related : Captures → Captures → Prop)
    (node : Node) : Prop :=
  ∀ left right, related left right →
    node.backrefFree = true ∨ left.SameTexts right

theorem TextsAgree.of_part
    {part whole : Node}
    (agree : TextsAgree related whole)
    (isPart : part ∈ whole.parts) :
    TextsAgree related part :=
  fun left right alike =>
    (agree left right alike).imp_left fun backrefFree =>
      (all_iff.mp backrefFree).2 part isPart

theorem forall₂_consume
    (test : Char → Bool)
    (alike : left.Alike related right) :
    List.Forall₂ (Progress.Alike related) (left.consume chars test)
      (right.consume chars test) := by
  simp only [Progress.consume, alike.offset]
  cases chars[right.offset]? with
  | none => exact .nil
  | some char =>
      dsimp only
      split
      · exact .cons ⟨rfl, alike.captures⟩ .nil
      · exact .nil

theorem forall₂_stay
    (holds : Bool)
    (alike : left.Alike related right) :
    List.Forall₂ (Progress.Alike related) (left.stay holds)
      (right.stay holds) := by
  unfold Progress.stay
  split
  · exact .cons alike .nil
  · exact .nil

theorem forall₂_copy
    (span : Span)
    (alike : left.Alike related right) :
    List.Forall₂ (Progress.Alike related) (left.copy chars span)
      (right.copy chars span) := by
  simp only [Progress.copy, alike.offset]
  split
  · exact .cons ⟨rfl, alike.captures⟩ .nil
  · exact .nil

/-- A back reference looks at the texts that are held, and at nothing else. -/
theorem possibilities_backref
    (index : Nat)
    (start : Progress) :
    possibilities chars (.backref index) start =
      match (start.captures.span? index).filter (·.length != 0) with
      | some span => start.copy chars span
      | none => [] := by
  rw [possibilities]
  cases start.captures.span? index with
  | none => rfl
  | some span =>
      by_cases length : span.length = 0
      · simp [Option.filter, length, Progress.copy]
      · simp [Option.filter, length]

theorem forall₂_backref
    (index : Nat)
    (alike : left.Alike related right)
    (same : left.captures.SameTexts right.captures) :
    List.Forall₂ (Progress.Alike related)
      (possibilities chars (.backref index) left)
      (possibilities chars (.backref index) right) := by
  rw [possibilities_backref, possibilities_backref,
    same.filter_span?_eq index]
  split
  · exact forall₂_copy _ alike
  · exact .nil

theorem forall₂_prefer
    (node : Node)
    (lockstep : List.Forall₂ (Progress.Alike related) ways others) :
    List.Forall₂ (Progress.Alike related) (prefer node ways)
      (prefer node others) := by
  unfold prefer
  split
  · exact List.rel_reverse lockstep
  · exact lockstep

theorem forall₂_further
    {step otherStep : Progress → List Progress}
    (length : Nat)
    (ofStep :
      ∀ left right, left.Alike related right →
        List.Forall₂ (Progress.Alike related) (step left) (otherStep right))
    (left right : Progress)
    (alike : left.Alike related right) :
    List.Forall₂ (Progress.Alike related)
      ((Unroll.successors length step left).flatMap
        (Unroll.outputs length step))
      ((Unroll.successors length otherStep right).flatMap
        (Unroll.outputs length otherStep)) := by
  rw [Unroll.successors, Unroll.successors, List.flatMap_map,
    List.flatMap_map]
  refine List.rel_flatMap (ofStep left right alike) ?_
  intro way other alikeWays
  beta_reduce
  rw [← Unroll.advances_congr alike.offset alikeWays.offset]
  cases advanced : Unroll.advances length left way with
  | false => exact .cons alikeWays .nil
  | true =>
      rw [Unroll.outputs, Unroll.outputs, Unroll.walk_eq, Unroll.walk_eq]
      exact .cons alikeWays (forall₂_further length ofStep way other alikeWays)
  termination_by length - left.offset
  decreasing_by simpa [Unroll.advances] using advanced

/-- Giving up empty captures behind the last node keeps the listings together. -/
theorem Keeps.forall₂_forget
    (keeps : Keeps chosen related)
    (node : Node)
    (lockstep : List.Forall₂ (Progress.Alike related) ways others) :
    List.Forall₂ (Progress.Alike related)
      (ways.map fun way => way.forget (chosen node way)) others := by
  refine List.forall₂_map_left_iff.mpr (lockstep.imp fun way other alike => ?_)
  exact ⟨alike.offset, keeps.forget node alike.captures⟩

theorem possibilitiesForgetting_of_test?
    {node : Node}
    {test : Char → Bool}
    (tested : node.test? = some test)
    (start : Progress) :
    possibilitiesForgetting chosen chars node start =
      (start.consume chars test).map fun way =>
        way.forget (chosen node way) := by
  rw [← possibilities_of_test? tested]
  cases node <;> first | rfl | cases tested

theorem forall₂_sequence
    {items : List Node}
    (ofItems :
      ∀ item ∈ items, ∀ left right : Progress, left.Alike related right →
        List.Forall₂ (Progress.Alike related)
          (possibilitiesForgetting chosen chars item left)
          (possibilities chars item right))
    (alike : left.Alike related right) :
    List.Forall₂ (Progress.Alike related)
      (sequenceForgetting chosen chars items left)
      (sequence chars items right) := by
  induction items generalizing left right with
  | nil =>
      rw [sequenceForgetting, sequence]
      exact .cons alike .nil
  | cons item rest inductionHypothesis =>
      obtain ⟨ofItem, ofRest⟩ := List.forall_mem_cons.mp ofItems
      rw [sequenceForgetting, sequence]
      refine
        List.rel_flatMap (forall₂_prefer item (ofItem left right alike)) ?_
      intro way other alikeWays
      exact inductionHypothesis ofRest alikeWays

theorem forall₂_choices
    {branches : List Node}
    (ofBranches :
      ∀ branch ∈ branches,
        List.Forall₂ (Progress.Alike related)
          (possibilitiesForgetting chosen chars branch left)
          (possibilities chars branch right)) :
    List.Forall₂ (Progress.Alike related)
      (choicesForgetting chosen chars branches left)
      (choices chars branches right) := by
  induction branches with
  | nil =>
      rw [choicesForgetting, choices]
      exact .nil
  | cons branch rest inductionHypothesis =>
      obtain ⟨ofBranch, ofRest⟩ := List.forall_mem_cons.mp ofBranches
      rw [choicesForgetting, choices]
      exact
        List.rel_append (forall₂_prefer branch ofBranch)
          (inductionHypothesis ofRest)

/--
From related progresses a node lists as many ways, which end together and are
related again, whether or not empty captures are given up on one side.
-/
theorem Keeps.forall₂_possibilities
    (keeps : Keeps chosen related)
    (node : Node)
    (agree : TextsAgree related node)
    (alike : left.Alike related right) :
    List.Forall₂ (Progress.Alike related)
      (possibilitiesForgetting chosen chars node left)
      (possibilities chars node right) := by
  induction node using treeInduction generalizing left right with
  | single node test tested =>
      rw [possibilitiesForgetting_of_test? tested,
        possibilities_of_test? tested]
      exact keeps.forall₂_forget node (forall₂_consume test alike)
  | anchor place =>
      cases place <;>
        rw [possibilitiesForgetting, possibilities, possibilities,
          ← alike.offset]
      all_goals exact keeps.forall₂_forget _ (forall₂_stay _ alike)
  | concat items inductionHypothesis =>
      rw [possibilitiesForgetting, possibilities]
      refine keeps.forall₂_forget _ (forall₂_sequence ?_ alike)
      intro item among left right alike
      exact inductionHypothesis item among (agree.of_part among) alike
  | alternation branches inductionHypothesis =>
      rw [possibilitiesForgetting, possibilities]
      refine keeps.forall₂_forget _ (forall₂_choices ?_)
      intro branch among
      exact inductionHypothesis branch among (agree.of_part among) alike
  | repetition body kind greedy inductionHypothesis =>
      have ofBody (left right : Progress) (alike : left.Alike related right) :=
        inductionHypothesis (agree.of_part List.mem_cons_self) alike
      have further := forall₂_further chars.size ofBody left right alike
      cases kind with
      | zeroOrOne =>
          rw [possibilitiesForgetting, possibilities]
          exact
            keeps.forall₂_forget _ (.cons alike (ofBody left right alike))
      | zeroOrMore =>
          rw [possibilitiesForgetting, possibilities,
            Unroll.unroll_eq_flatMap, Unroll.unroll_eq_flatMap]
          simp only [List.flatMap_singleton, Unroll.outputs, Unroll.walk_eq]
          exact keeps.forall₂_forget _ (.cons alike further)
      | oneOrMore =>
          rw [possibilitiesForgetting, possibilities,
            Unroll.unroll_eq_flatMap, Unroll.unroll_eq_flatMap]
          exact keeps.forall₂_forget _ further
  | group index body inductionHypothesis =>
      rw [possibilitiesForgetting, possibilities]
      refine keeps.forall₂_forget _ ?_
      have ofBody :=
        inductionHypothesis (agree.of_part List.mem_cons_self) alike
      refine List.rel_map ?_ (forall₂_prefer body ofBody)
      intro way other alikeWays
      refine ⟨alikeWays.offset, ?_⟩
      simp only [Progress.closeGroup, alike.offset, alikeWays.offset]
      exact keeps.record index _ alikeWays.captures
  | backref index =>
      rw [possibilitiesForgetting]
      refine keeps.forall₂_forget _ (forall₂_backref index alike ?_)
      rcases agree _ _ alike.captures with backrefFree | same
      · cases (all_iff.mp backrefFree).1
      · exact same

/-- Where nothing is given up, the ways are those of the node. -/
theorem possibilitiesForgetting_nothing
    (node : Node)
    (start : Progress) :
    possibilitiesForgetting (fun _ _ _ => false) chars node start =
      possibilities chars node start := by
  have keeps : Keeps (fun _ _ _ => false) Eq :=
    { record := fun index span same => same ▸ rfl
      forget := fun node same => by
        rw [← same, Progress.forget, Captures.forget_nothing] }
  have agree : TextsAgree Eq node :=
    fun left right same => Or.inr (same ▸ .refl left)
  have lockstep :
      List.Forall₂ (Progress.Alike Eq)
        (possibilitiesForgetting (fun _ _ _ => false) chars node start)
        (possibilities chars node start) :=
    keeps.forall₂_possibilities node agree ⟨rfl, rfl⟩
  rw [← List.forall₂_eq_eq_eq]
  refine lockstep.imp fun way other alike => ?_
  cases way
  cases other
  cases alike.offset
  cases alike.captures
  rfl

/-- Recording alike is all that is asked of a relation where nothing is given up. -/
theorem forall₂_possibilities
    (record :
      ∀ {left right} index span, related left right →
        related (left.record index span) (right.record index span))
    (node : Node)
    (agree : TextsAgree related node)
    (alike : left.Alike related right) :
    List.Forall₂ (Progress.Alike related)
      (possibilities chars node left) (possibilities chars node right) := by
  have keeps : Keeps (fun _ _ _ => false) related :=
    { record := record
      forget := fun node relates => by
        rw [Progress.forget, Captures.forget_nothing]
        exact relates }
  rw [← possibilitiesForgetting_nothing]
  exact keeps.forall₂_possibilities node agree alike

end Lockstep

end Node

namespace Pattern

open Node

/-- What is reported for a slot that is there shows nothing of an empty capture. -/
theorem getElem?_capturedTexts_of_lt
    (chars : Line)
    {captures : Captures}
    {index : Nat}
    (present : index < captures.size) :
    (capturedTexts chars captures)[index]? =
      some
        (((captures.span? index).filter (·.length != 0)).elim ""
          (·.text chars)) := by
  have isSlot : captures.span? index = captures[index] := by
    rw [Captures.span?, Array.getElem?_eq_getElem present]
    rfl
  rw [getElem?_capturedTexts, Array.getElem?_eq_getElem present, isSlot,
    Option.map_some]
  cases captures[index] with
  | none => rfl
  | some span =>
      by_cases length : span.length = 0
      · have empty : span.of chars = #[] :=
          Array.extract_empty_of_stop_le_start (Nat.sub_eq_zero_iff_le.mp length)
        simp [Option.filter, length, Span.text, empty]
      · simp [Option.filter, length]

/-- As many slots with the same texts are reported alike. -/
theorem capturedTexts_eq_of_sameTexts
    (chars : Line)
    {left right : Captures}
    (same : left.SameTexts right)
    (sameSize : left.size = right.size) :
    capturedTexts chars left = capturedTexts chars right := by
  refine List.ext_getElem? fun index => ?_
  by_cases present : index < left.size
  · rw [getElem?_capturedTexts_of_lt chars present,
      getElem?_capturedTexts_of_lt chars (sameSize ▸ present),
      same.filter_span?_eq]
  · have absent : left.size ≤ index := Nat.le_of_not_lt present
    rw [List.getElem?_eq_none (length_capturedTexts chars left ▸ absent),
      List.getElem?_eq_none
        (length_capturedTexts chars right ▸ sameSize ▸ absent)]

/-- Match the pattern against one line, giving up empty captures. -/
def matchLineForgetting
    (chosen : Forgetting)
    (pattern : Pattern)
    (text : String) :
    Outcome :=
  let chars := Line.ofText text
  let reported (start : Nat) : Option Outcome :=
    let ways :=
      pattern.root.possibilitiesForgetting chosen chars (pattern.begin start)
    (prefer pattern.root ways).head?.map (.ofWay chars start)
  ((List.range (pattern.lastStart chars + 1)).findSome? reported).getD
    .unmatched

/-- The outcome is that of the first offset that has one. -/
theorem matchLine_eq_findSome?
    (pattern : Pattern)
    (text : String) :
    let chars := Line.ofText text
    pattern.matchLine text =
      ((List.range (pattern.lastStart chars + 1)).findSome? fun start =>
          (pattern.matchAt? chars start).map (.ofWay chars start)).getD
        .unmatched := by
  intro chars
  have found :
      ((List.range (pattern.lastStart chars + 1)).findSome? fun start =>
          (pattern.matchAt? chars start).map (Outcome.ofWay chars start)) =
        (pattern.find? chars).map fun found =>
          Outcome.ofWay chars found.start found.final := by
    rw [find?, List.map_findSome?]
    refine congrArg (List.findSome? · _) (funext fun start => ?_)
    rw [Function.comp_apply, Option.map_map]
    rfl
  rw [found, matchLine]
  cases pattern.find? chars <;> rfl

/-- What is read off the first entry of two lists is the same where the entries are related. -/
private theorem head?_map_eq_of_forall₂
    {relation : α → β → Prop}
    {first : α → γ}
    {second : β → γ}
    {firsts : List α}
    {seconds : List β}
    (lockstep : List.Forall₂ relation firsts seconds)
    (same : ∀ left right, relation left right → first left = second right) :
    firsts.head?.map first = seconds.head?.map second := by
  cases lockstep with
  | nil => rfl
  | cons related _ => exact congrArg some (same _ _ related)

/-- Empty captures and unset ones are reported alike, from the first offset to the last. -/
theorem matchLineForgetting_eq
    (chosen : Forgetting)
    (pattern : Pattern)
    (text : String) :
    pattern.matchLineForgetting chosen text = pattern.matchLine text := by
  let related (left right : Captures) : Prop :=
    left.SameTexts right ∧ left.size = right.size
  have keeps : Keeps chosen related :=
    { record := fun index span ⟨same, sameSize⟩ =>
        ⟨same.record index span, by
          rw [Captures.size_record, Captures.size_record, sameSize]⟩
      forget := fun node ⟨same, sameSize⟩ =>
        ⟨(Captures.forget_sameTexts _ _).trans same,
          (Captures.size_forget _ _).trans sameSize⟩ }
  have agree : TextsAgree related pattern.root :=
    fun left right ⟨same, _⟩ => Or.inr same
  rw [matchLineForgetting, matchLine_eq_findSome?]
  refine congrArg (Option.getD · _) ?_
  refine congrArg (List.findSome? · _) (funext fun start => ?_)
  have lockstep :
      List.Forall₂ (Progress.Alike related)
        (possibilitiesForgetting chosen (Line.ofText text) pattern.root
          (pattern.begin start))
        (possibilities (Line.ofText text) pattern.root
          (pattern.begin start)) :=
    keeps.forall₂_possibilities pattern.root agree ⟨rfl, .refl _, rfl⟩
  refine
    head?_map_eq_of_forall₂ (forall₂_prefer pattern.root lockstep)
      fun way other alike => ?_
  rw [Outcome.ofWay_inj.mpr]
  exact
    ⟨alike.offset,
      capturedTexts_eq_of_sameTexts _ alike.captures.1 alike.captures.2⟩

/--
An empty capture cannot be told from an unset one.  Where slots hold the same
texts, at the same places, every node lists as many ways, which end together, in
the same order, and again leave slots that hold the same texts.  So whichever
empty captures are given up, behind whichever nodes, every line has the outcome
that it has when they are kept.
-/
theorem empty_captures_are_no_captures :
    (∀ (chars : Line) (node : Node) (offset : Nat) (left right : Captures),
      left.SameTexts right →
        List.Forall₂
          (fun way other =>
            way.offset = other.offset ∧
              way.captures.SameTexts other.captures)
          (possibilities chars node ⟨offset, left⟩)
          (possibilities chars node ⟨offset, right⟩)) ∧
      ∀ (chosen : Forgetting) (pattern : Pattern) (text : String),
        pattern.matchLineForgetting chosen text = pattern.matchLine text := by
  constructor
  · intro chars node offset left right same
    have agree : TextsAgree Captures.SameTexts node :=
      fun left right same => Or.inr same
    have lockstep :
        List.Forall₂ (Progress.Alike Captures.SameTexts)
          (possibilities chars node ⟨offset, left⟩)
          (possibilities chars node ⟨offset, right⟩) :=
      forall₂_possibilities
        (fun index span same => same.record index span) node agree
        ⟨rfl, same⟩
    exact lockstep.imp fun way other alike => ⟨alike.offset, alike.captures⟩
  · exact matchLineForgetting_eq

/-- The first reference fails in any case, whether its slot is empty, unset or missing. -/
theorem empty_captures_are_no_captures_for_references :
    let node : Node := .group 3 (.alternation [.backref 1, .backref 2])
    let held : Captures := #[none, some ⟨1, 1⟩, some ⟨0, 1⟩]
    let forgotten := held.forget fun _ => true
    forgotten = #[none, none, some ⟨0, 1⟩] ∧
      forgotten.SameTexts held ∧
      possibilities #['a', 'a'] node ⟨1, held⟩ =
        [⟨2, #[none, some ⟨1, 1⟩, some ⟨0, 1⟩, some ⟨1, 2⟩]⟩] ∧
      List.Forall₂
        (fun way other =>
          way.offset = other.offset ∧
            way.captures.SameTexts other.captures)
        (possibilities #['a', 'a'] node ⟨1, forgotten⟩)
        (possibilities #['a', 'a'] node ⟨1, held⟩) := by
  intro node held forgotten
  have same : forgotten.SameTexts held :=
    held.forget_sameTexts fun _ => true
  exact
    ⟨by decide, same, by decide,
      empty_captures_are_no_captures.1 #['a', 'a'] node 1 forgotten held
        same⟩

end Pattern

end LineSearch
