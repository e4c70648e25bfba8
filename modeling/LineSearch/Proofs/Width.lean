import LineSearch.Proofs.Ways

namespace LineSearch.Node

/-!
# Nodes that always consume as much

Many nodes consume the same number of characters in every way.  Whether such a
node, without back references, can be matched depends on the offset alone and
not on what the slots hold.
-/

mutual

/-- The number of characters that every way of the node consumes, if it shows in the tree. -/
def width? : Node → Option Nat
  | .literal _ | .dot | .charClass _ | .set _ => some 1
  | .anchor _ => some 0
  | .concat items => totalWidth? items
  | .alternation branches => commonWidth? branches
  | .group _ body => body.width?
  | .repetition _ _ _ | .backref _ => none

/-- The width of these nodes one after the other. -/
def totalWidth? : List Node → Option Nat
  | [] => some 0
  | item :: rest => do
      let first ← item.width?
      let others ← totalWidth? rest
      return first + others

/-- The width that each of these nodes has. -/
def commonWidth? : List Node → Option Nat
  | [] => none
  | [branch] => branch.width?
  | branch :: rest =>
      if commonWidth? rest = branch.width? then branch.width? else none

end

variable {chars : Line} {size : Nat}

theorem width?_of_test?
    {node : Node}
    {test : Char → Bool}
    (tested : node.test? = some test) :
    node.width? = some 1 := by
  cases node <;> first | rfl | cases tested

theorem totalWidth?_cons_eq_some_iff
    {item : Node}
    {rest : List Node} :
    totalWidth? (item :: rest) = some size ↔
      ∃ first others,
        item.width? = some first ∧
          totalWidth? rest = some others ∧
          size = first + others := by
  simp only [totalWidth?, Option.bind_eq_bind, Option.bind_eq_some_iff,
    Option.pure_def, Option.some.injEq]
  constructor
  · rintro ⟨first, ofItem, others, ofRest, same⟩
    exact ⟨first, others, ofItem, ofRest, same.symm⟩
  · rintro ⟨first, others, ofItem, ofRest, same⟩
    exact ⟨first, ofItem, others, ofRest, same.symm⟩

theorem width?_of_mem
    {branches : List Node}
    (common : commonWidth? branches = some size)
    {branch : Node}
    (member : branch ∈ branches) :
    branch.width? = some size := by
  induction branches with
  | nil => cases member
  | cons first rest inductionHypothesis =>
      cases rest with
      | nil =>
          rw [List.mem_singleton] at member
          subst member
          exact common
      | cons second others =>
          rw [commonWidth?] at common
          · split at common
            · rename_i same
              rcases List.mem_cons.mp member with isFirst | ofRest
              · rw [isFirst, common]
              · exact inductionHypothesis (same.trans common) ofRest
            · cases common
          · simp

/-- Every way consumes the width. -/
theorem offset_of_width?
    (node : Node)
    {start way : Progress}
    (width : node.width? = some size)
    (member : way ∈ possibilities chars node start) :
    way.offset = start.offset + size := by
  induction node using treeInduction generalizing size start way with
  | single node test tested =>
      rw [possibilities_of_test? tested] at member
      obtain ⟨char, present, passes, rfl⟩ := Progress.mem_consume.mp member
      rw [width?_of_test? tested] at width
      cases width
      rfl
  | anchor place =>
      obtain ⟨here, rfl⟩ := mem_anchor.mp member
      cases width
      rfl
  | concat items inductionHypothesis =>
      rw [width?] at width
      induction items generalizing size start with
      | nil =>
          cases width
          rw [mem_concat_nil.mp member, Nat.add_zero]
      | cons item rest ofRest =>
          obtain ⟨first, others, ofItem, ofOthers, rfl⟩ :=
            totalWidth?_cons_eq_some_iff.mp width
          obtain ⟨middle, before, after⟩ := mem_concat_cons.mp member
          have reached :=
            inductionHypothesis item (by simp) ofItem before
          have finished :=
            ofRest
              (fun later among =>
                inductionHypothesis later (List.mem_cons_of_mem _ among))
              ofOthers after
          rw [finished, reached, Nat.add_assoc]
  | alternation branches inductionHypothesis =>
      rw [width?] at width
      obtain ⟨branch, among, ofBranch⟩ := mem_alternation.mp member
      exact
        inductionHypothesis branch among (width?_of_mem width among) ofBranch
  | repetition body kind greedy inductionHypothesis =>
      cases width
  | group index body inductionHypothesis =>
      rw [width?] at width
      obtain ⟨inner, ofBody, rfl⟩ := mem_group.mp member
      have reached := inductionHypothesis width ofBody
      exact reached
  | backref index =>
      cases width

/-- Where there is a way, there is one from the same offset with any other slots. -/
theorem exists_way_of_same_offset
    (node : Node)
    {start other way : Progress}
    (width : node.width? = some size)
    (same : other.offset = start.offset)
    (member : way ∈ possibilities chars node start) :
    ∃ alike, alike ∈ possibilities chars node other := by
  induction node using treeInduction generalizing size start other way with
  | single node test tested =>
      rw [possibilities_of_test? tested] at member ⊢
      obtain ⟨char, present, passes, _⟩ := Progress.mem_consume.mp member
      rw [← same] at present
      exact ⟨_, Progress.mem_consume.mpr ⟨char, present, passes, rfl⟩⟩
  | anchor place =>
      obtain ⟨here, _⟩ := mem_anchor.mp member
      rw [← same] at here
      exact ⟨other, mem_anchor.mpr ⟨here, rfl⟩⟩
  | concat items inductionHypothesis =>
      rw [width?] at width
      induction items generalizing size start other with
      | nil => exact ⟨other, mem_concat_nil.mpr rfl⟩
      | cons item rest ofRest =>
          obtain ⟨first, others, ofItem, ofOthers, rfl⟩ :=
            totalWidth?_cons_eq_some_iff.mp width
          obtain ⟨middle, before, after⟩ := mem_concat_cons.mp member
          obtain ⟨alike, alikeBefore⟩ :=
            inductionHypothesis item (by simp) ofItem same before
          have reached : alike.offset = middle.offset := by
            rw [offset_of_width? item ofItem alikeBefore,
              offset_of_width? item ofItem before, same]
          obtain ⟨last, alikeAfter⟩ :=
            ofRest
              (fun later among =>
                inductionHypothesis later (List.mem_cons_of_mem _ among))
              ofOthers reached after
          exact ⟨last, mem_concat_cons.mpr ⟨alike, alikeBefore, alikeAfter⟩⟩
  | alternation branches inductionHypothesis =>
      rw [width?] at width
      obtain ⟨branch, among, ofBranch⟩ := mem_alternation.mp member
      obtain ⟨alike, ofAlike⟩ :=
        inductionHypothesis branch among (width?_of_mem width among)
          same ofBranch
      exact ⟨alike, mem_alternation.mpr ⟨branch, among, ofAlike⟩⟩
  | repetition body kind greedy inductionHypothesis =>
      cases width
  | group index body inductionHypothesis =>
      rw [width?] at width
      obtain ⟨inner, ofBody, _⟩ := mem_group.mp member
      obtain ⟨alike, ofAlike⟩ := inductionHypothesis width same ofBody
      exact ⟨_, mem_group.mpr ⟨alike, ofAlike, rfl⟩⟩
  | backref index =>
      cases width

end LineSearch.Node
