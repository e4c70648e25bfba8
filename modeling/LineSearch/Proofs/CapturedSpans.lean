import LineSearch.Proofs.CompiledSpelling
import LineSearch.Proofs.WaysDerived

namespace LineSearch

/-!
# What an attempt captures

An attempt to match begins at one offset of the line.  Whatever is captured on
the way lies between that offset and the one that has been reached, groups write
no slots but their own, and where there is a slot for every group no slot is ever
added.  All this holds of every list of ways that is asked for in the course of
the attempt, given up or not.
-/

namespace Progress

/-- A progress of an attempt that began at this offset: nothing is captured in front of it. -/
structure Since (chars : Line) (origin : Nat) (progress : Progress) : Prop where
  begun : origin ≤ progress.offset
  offset_le : progress.offset ≤ chars.size
  captured :
    ∀ index span,
      progress.captures.span? index = some span →
      origin ≤ span.start ∧
        span.start ≤ span.stop ∧
        span.stop ≤ progress.offset

namespace Since

variable {chars : Line} {origin : Nat}

/-- An attempt begins with nothing captured. -/
theorem begin
    (bounded : origin ≤ chars.size)
    (groupCount : Nat) :
    Since chars origin ⟨origin, Captures.unset groupCount⟩ where
  begun := Nat.le_refl origin
  offset_le := bounded
  captured index span held := by
    rw [Captures.span?_unset] at held
    cases held

theorem inside
    {progress : Progress}
    (since : progress.Since chars origin) :
    progress.Inside chars where
  offset_le := since.offset_le
  captures index span held := by
    obtain ⟨_, ordered, reached⟩ := since.captured index span held
    exact ⟨ordered, Nat.le_trans reached since.offset_le⟩

/-- Moving on leaves behind what is captured. -/
theorem moveOn
    {progress : Progress}
    (since : progress.Since chars origin)
    {offset : Nat}
    (forward : progress.offset ≤ offset)
    (bounded : offset ≤ chars.size) :
    Since chars origin ⟨offset, progress.captures⟩ where
  begun := Nat.le_trans since.begun forward
  offset_le := bounded
  captured index span held := by
    obtain ⟨notBefore, ordered, reached⟩ := since.captured index span held
    exact ⟨notBefore, ordered, Nat.le_trans reached forward⟩

/-- A group captures what lies between its opening and the offset reached. -/
theorem record
    {progress : Progress}
    (since : progress.Since chars origin)
    (index : Nat)
    {opened : Nat}
    (notBefore : origin ≤ opened)
    (ordered : opened ≤ progress.offset) :
    Since chars origin
      ⟨progress.offset,
        progress.captures.record index ⟨opened, progress.offset⟩⟩ where
  begun := since.begun
  offset_le := since.offset_le
  captured query span held := by
    rw [Captures.span?_record] at held
    split at held
    · cases held
      exact ⟨notBefore, ordered, Nat.le_refl _⟩
    · exact since.captured query span held

end Since

end Progress

namespace Node

variable
  {chars : Line}
  {goesOn : Progress → Progress → Prop}
  {node : Node}
  {start stop : Progress}

theorem mem_groupIndicesOfAll
    {index : Nat}
    {nodes : List Node} :
    index ∈ groupIndicesOfAll nodes ↔
      ∃ node ∈ nodes, index ∈ node.groupIndices := by
  induction nodes with
  | nil => simp [groupIndicesOfAll]
  | cons node rest inductionHypothesis =>
      simp [groupIndicesOfAll, inductionHypothesis]

/-- What holds of the groups of all these nodes holds of the groups of each. -/
theorem forall_groupIndices_of_mem
    {holds : Nat → Prop}
    {nodes : List Node}
    (ofAll : ∀ index ∈ groupIndicesOfAll nodes, holds index)
    (among : node ∈ nodes) :
    ∀ index ∈ node.groupIndices, holds index :=
  fun index present =>
    ofAll index (mem_groupIndicesOfAll.mpr ⟨node, among, present⟩)

namespace Consumes

/-- An attempt captures nothing in front of where it began and nothing beyond what it reached. -/
theorem since
    {origin : Nat}
    (consumes : Consumes chars goesOn node start stop)
    (startSince : start.Since chars origin) :
    stop.Since chars origin := by
  induction consumes with
  | single present =>
      obtain ⟨bounded, _⟩ := Array.getElem?_eq_some_iff.mp present
      exact startSince.moveOn (Nat.le_succ _) bounded
  | anchor | concatNil | noOccurrence => exact startSince
  | concatCons _ _ ofItem ofRest => exact ofRest (ofItem startSince)
  | branch _ _ ofBranch => exact ofBranch startSince
  | oneOccurrence _ ofBody => exact ofBody startSince
  | furtherOccurrences _ _ _ _ ofFirst ofRest =>
      exact ofRest (ofFirst startSince)
  | group body ofBody =>
      exact (ofBody startSince).record _ startSince.begun body.forward
  | backref _ _ isStop bounded _ =>
      exact startSince.moveOn (isStop ▸ Nat.le_add_right _ _) bounded

/-- A slot that no group of the node has is left as it is. -/
theorem span?_eq
    {index : Nat}
    (consumes : Consumes chars goesOn node start stop)
    (absent : index ∉ node.groupIndices) :
    stop.captures.span? index = start.captures.span? index := by
  induction consumes with
  | single | anchor | concatNil | noOccurrence | backref => rfl
  | concatCons _ _ ofItem ofRest =>
      rw [groupIndices, groupIndicesOfAll, List.mem_append, not_or] at absent
      exact (ofRest absent.2).trans (ofItem absent.1)
  | branch among _ ofBranch =>
      exact
        ofBranch fun present =>
          absent (mem_groupIndicesOfAll.mpr ⟨_, among, present⟩)
  | oneOccurrence _ ofBody => exact ofBody absent
  | furtherOccurrences _ _ _ _ ofFirst ofRest =>
      exact (ofRest absent).trans (ofFirst absent)
  | group _ ofBody =>
      rw [groupIndices, List.mem_cons, not_or] at absent
      rw [Captures.span?_record, if_neg absent.1]
      exact ofBody absent.2

/-- Where every group of the node has a slot, no slots are added. -/
theorem size_captures
    (consumes : Consumes chars goesOn node start stop)
    (slots : ∀ index ∈ node.groupIndices, index < start.captures.size) :
    stop.captures.size = start.captures.size := by
  induction consumes with
  | single | anchor | concatNil | noOccurrence | backref => rfl
  | concatCons _ _ ofItem ofRest =>
      obtain ⟨ofFirst, ofOthers⟩ := List.forall_mem_append.mp slots
      have sameMiddle := ofItem ofFirst
      rw [ofRest (sameMiddle.symm ▸ ofOthers), sameMiddle]
  | branch among _ ofBranch =>
      exact ofBranch (forall_groupIndices_of_mem slots among)
  | oneOccurrence _ ofBody => exact ofBody slots
  | furtherOccurrences _ _ _ _ ofFirst ofRest =>
      have sameMiddle := ofFirst slots
      have ofOthers := ofRest (sameMiddle.symm ▸ slots)
      rw [ofOthers, sameMiddle]
  | @group index body start stop _ ofBody =>
      obtain ⟨own, inner⟩ := List.forall_mem_cons.mp slots
      rw [Captures.size_record, ofBody inner]
      exact Nat.max_eq_left own

end Consumes

/--
Listing the ways of the first node from the first progress comes to listing those
of the second node from the second progress.
-/
inductive Calls (chars : Line) : Node → Progress → Node → Progress → Prop where
  | self
      {node : Node}
      {start : Progress} :
      Calls chars node start node start
  /-- Items are asked one after the other, a later one from each way of those before. -/
  | firstItem
      {item inner : Node}
      {rest : List Node}
      {start place : Progress} :
      Calls chars item start inner place →
      Calls chars (.concat (item :: rest)) start inner place
  | laterItem
      {item inner : Node}
      {rest : List Node}
      {start middle place : Progress} :
      middle ∈ possibilities chars item start →
      Calls chars (.concat rest) middle inner place →
      Calls chars (.concat (item :: rest)) start inner place
  | branch
      {branch inner : Node}
      {branches : List Node}
      {start place : Progress} :
      branch ∈ branches →
      Calls chars branch start inner place →
      Calls chars (.alternation branches) start inner place
  /-- A repetition asks its body where it starts, and from each way that is followed. -/
  | occurrence
      {body inner : Node}
      {kind : RepeatKind}
      {greedy : Bool}
      {start place : Progress} :
      Calls chars body start inner place →
      Calls chars (.repetition body kind greedy) start inner place
  | furtherOccurrence
      {body inner : Node}
      {kind : RepeatKind}
      {greedy : Bool}
      {start next place : Progress} :
      kind ≠ .zeroOrOne →
      next ∈ possibilities chars body start →
      Unroll.advances chars.size start next = true →
      Calls chars (.repetition body .zeroOrMore greedy) next inner place →
      Calls chars (.repetition body kind greedy) start inner place
  | body
      {index : Nat}
      {body inner : Node}
      {start place : Progress} :
      Calls chars body start inner place →
      Calls chars (.group index body) start inner place

namespace Calls

variable {inner : Node} {place : Progress} {origin : Nat}

/-- What a call comes to is part of what the caller comes to. -/
theorem trans
    {last : Node}
    {stop : Progress}
    (calls : Calls chars node start inner place)
    (further : Calls chars inner place last stop) :
    Calls chars node start last stop := by
  induction calls with
  | self => exact further
  | firstItem _ ofItem => exact .firstItem (ofItem further)
  | laterItem ofFirst _ ofRest => exact .laterItem ofFirst (ofRest further)
  | branch among _ ofBranch => exact .branch among (ofBranch further)
  | occurrence _ ofBody => exact .occurrence (ofBody further)
  | furtherOccurrence allowed ofFirst advanced _ ofRest =>
      exact .furtherOccurrence allowed ofFirst advanced (ofRest further)
  | body _ ofBody => exact .body (ofBody further)

/-- Only nodes of the tree are asked, so no other groups are met. -/
theorem groupIndices_subset
    (calls : Calls chars node start inner place) :
    inner.groupIndices ⊆ node.groupIndices := by
  induction calls with
  | self => exact List.Subset.refl _
  | firstItem _ ofItem =>
      exact List.subset_append_of_subset_left _ ofItem
  | laterItem _ _ ofRest =>
      exact List.subset_append_of_subset_right _ ofRest
  | branch among _ ofBranch =>
      intro index present
      exact mem_groupIndicesOfAll.mpr ⟨_, among, ofBranch present⟩
  | occurrence _ ofBody => exact ofBody
  | furtherOccurrence _ _ _ _ ofRest => exact ofRest
  | body _ ofBody => exact List.subset_cons_of_subset _ ofBody

/-- What is asked for in the course of an attempt is asked for from a progress of that attempt. -/
theorem since
    (calls : Calls chars node start inner place)
    (startSince : start.Since chars origin) :
    place.Since chars origin := by
  induction calls with
  | self => exact startSince
  | firstItem _ ofItem => exact ofItem startSince
  | laterItem ofFirst _ ofRest =>
      have derived := matches_of_mem_possibilities _ startSince.inside ofFirst
      exact ofRest (derived.since startSince)
  | branch _ _ ofBranch => exact ofBranch startSince
  | occurrence _ ofBody => exact ofBody startSince
  | furtherOccurrence _ ofFirst _ _ ofRest =>
      have derived := matches_of_mem_possibilities _ startSince.inside ofFirst
      exact ofRest (derived.since startSince)
  | body _ ofBody => exact ofBody startSince

/-- Where every group has a slot, all that is asked for is asked for with the same slots. -/
theorem size_captures
    (calls : Calls chars node start inner place)
    (startSince : start.Since chars origin)
    (slots : ∀ index ∈ node.groupIndices, index < start.captures.size) :
    place.captures.size = start.captures.size := by
  induction calls with
  | self => rfl
  | firstItem _ ofItem =>
      exact ofItem startSince (List.forall_mem_append.mp slots).1
  | laterItem ofFirst _ ofRest =>
      obtain ⟨ofItem, ofOthers⟩ := List.forall_mem_append.mp slots
      have derived := matches_of_mem_possibilities _ startSince.inside ofFirst
      have same := derived.size_captures ofItem
      have later := ofRest (derived.since startSince) (same.symm ▸ ofOthers)
      exact later.trans same
  | branch among _ ofBranch =>
      exact ofBranch startSince (forall_groupIndices_of_mem slots among)
  | occurrence _ ofBody => exact ofBody startSince slots
  | furtherOccurrence _ ofFirst _ _ ofRest =>
      have derived := matches_of_mem_possibilities _ startSince.inside ofFirst
      have same := derived.size_captures slots
      have later := ofRest (derived.since startSince) (same.symm ▸ slots)
      exact later.trans same
  | body _ ofBody =>
      exact ofBody startSince (List.forall_mem_cons.mp slots).2

end Calls

end Node

end LineSearch
