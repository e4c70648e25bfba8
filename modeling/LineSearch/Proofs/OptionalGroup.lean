import LineSearch.Proofs.CapturedSpans
import LineSearch.Proofs.GreedyOrder
import LineSearch.Proofs.ReportedMatch
import LineSearch.Proofs.RightRecursion
import Mathlib

namespace LineSearch

/-!
# A group that is made optional

Behind `?` a group is greedy: it is left out only where it cannot be matched.
But the greedy repetition turns the whole list of ways around, the ways among
which the group itself has already chosen with it, and so takes the one that the
group prefers least.  It reports what the group alone does where the first and
the last way of the group are told apart by nothing that is reported, as when
the tree of the group leaves no choice.
-/

namespace Node

variable {chars : Line} {start way other : Progress}

/-- What holds no group leaves the slots as they are. -/
theorem Consumes.captures_eq
    {goesOn : Progress → Progress → Prop}
    {node : Node}
    (consumes : Consumes chars goesOn node start way)
    (noGroups : node.groupIndices = []) :
    way.captures = start.captures := by
  induction consumes with
  | single | anchor | concatNil | noOccurrence | backref => rfl
  | concatCons _ _ ofItem ofRest =>
      obtain ⟨inItem, inRest⟩ := List.append_eq_nil_iff.mp noGroups
      exact (ofRest inRest).trans (ofItem inItem)
  | branch among _ ofBranch =>
      rw [groupIndices] at noGroups
      refine ofBranch (List.eq_nil_iff_forall_not_mem.mpr fun index present => ?_)
      have listed := mem_groupIndicesOfAll.mpr ⟨_, among, present⟩
      rw [noGroups] at listed
      exact List.not_mem_nil listed
  | oneOccurrence _ ofBody => exact ofBody noGroups
  | furtherOccurrences _ _ _ _ ofFirst ofRest =>
      exact (ofRest noGroups).trans (ofFirst noGroups)
  | group => cases noGroups

mutual

/-- The tree leaves no choice: all ways from one start are the same, if there is any. -/
def leavesNoChoice : Node → Bool
  | .literal _ | .dot | .charClass _ | .set _ | .anchor _ | .backref _ => true
  | .concat items => leaveNoChoice items
  | .alternation branches =>
      (commonWidth? branches).isSome && (groupIndicesOfAll branches).isEmpty
  | .repetition _ _ _ => false
  | .group _ body => body.leavesNoChoice

/-- None of these nodes leaves a choice. -/
def leaveNoChoice : List Node → Bool
  | [] => true
  | item :: rest => item.leavesNoChoice && leaveNoChoice rest

end

theorem eq_of_leavesNoChoice
    (node : Node)
    (noChoice : node.leavesNoChoice = true)
    (inside : start.Inside chars)
    (listed : way ∈ possibilities chars node start)
    (otherListed : other ∈ possibilities chars node start) :
    way = other := by
  induction node using treeInduction generalizing start way other with
  | single node test tested =>
      rw [possibilities_of_test? tested] at listed otherListed
      obtain ⟨_, _, _, rfl⟩ := Progress.mem_consume.mp listed
      obtain ⟨_, _, _, rfl⟩ := Progress.mem_consume.mp otherListed
      rfl
  | anchor place =>
      obtain ⟨-, rfl⟩ := mem_anchor.mp listed
      obtain ⟨-, rfl⟩ := mem_anchor.mp otherListed
      rfl
  | concat items inductionHypothesis =>
      rw [leavesNoChoice] at noChoice
      induction items generalizing start with
      | nil => rw [mem_concat_nil.mp listed, mem_concat_nil.mp otherListed]
      | cons item rest ofRest =>
          obtain ⟨itemNoChoice, restNoChoice⟩ :=
            Bool.and_eq_true_iff.mp noChoice
          obtain ⟨middle, before, after⟩ := mem_concat_cons.mp listed
          obtain ⟨otherMiddle, otherBefore, otherAfter⟩ :=
            mem_concat_cons.mp otherListed
          obtain rfl : middle = otherMiddle :=
            inductionHypothesis item List.mem_cons_self itemNoChoice inside
              before otherBefore
          exact
            ofRest
              (fun later among =>
                inductionHypothesis later (List.mem_cons_of_mem _ among))
              restNoChoice (inside_of_mem_possibilities inside before)
              after otherAfter
  | alternation branches _ =>
      -- Branches of one width end together, and without groups they capture nothing.
      obtain ⟨hasWidth, noGroups⟩ := Bool.and_eq_true_iff.mp noChoice
      obtain ⟨size, common⟩ := Option.isSome_iff_exists.mp hasWidth
      have width : (Node.alternation branches).width? = some size := by
        rw [width?, common]
      have groupless : (Node.alternation branches).groupIndices = [] := by
        rw [groupIndices, List.isEmpty_iff.mp noGroups]
      have captured :=
        (matches_of_mem_possibilities _ inside listed).captures_eq groupless
      have otherCaptured :=
        (matches_of_mem_possibilities _ inside otherListed).captures_eq
          groupless
      have ended := offset_of_width? _ width listed
      have otherEnded := offset_of_width? _ width otherListed
      rcases way with ⟨offset, captures⟩
      rcases other with ⟨otherOffset, otherCaptures⟩
      cases ended.trans otherEnded.symm
      cases captured.trans otherCaptured.symm
      rfl
  | repetition body kind greedy _ => cases noChoice
  | group index body inductionHypothesis =>
      rw [leavesNoChoice] at noChoice
      obtain ⟨inner, ofBody, rfl⟩ := mem_group.mp listed
      obtain ⟨otherInner, otherOfBody, rfl⟩ := mem_group.mp otherListed
      rw [inductionHypothesis noChoice inside ofBody otherOfBody]
  | backref index =>
      obtain ⟨span, held, copied⟩ := mem_backref.mp listed
      obtain ⟨otherSpan, otherHeld, otherCopied⟩ := mem_backref.mp otherListed
      cases held.symm.trans otherHeld
      obtain ⟨-, -, rfl⟩ := Progress.mem_copy.mp copied
      obtain ⟨-, -, rfl⟩ := Progress.mem_copy.mp otherCopied
      rfl

end Node

namespace Spelling

/-- A spelling in parentheses, under a repetition or not. -/
def Alternation.grouped
    (spelling : Alternation)
    (kind? : Option RepeatKind) :
    Alternation :=
  .of (.cons (.group spelling) kind? .nil) .nil

theorem Alternation.Spells.grouped
    {spelling : Alternation}
    {text whole : String}
    (spells : spelling.Spells text)
    (kind? : Option RepeatKind)
    (isWhole :
      whole.toList =
        '(' :: text.toList ++ ')' :: (kind?.map RepeatKind.sign).toList) :
    (spelling.grouped kind?).Spells whole := by
  obtain ⟨formed, same⟩ := spells
  refine ⟨⟨⟨formed, trivial, ?_⟩, trivial, ?_⟩, ?_⟩
  · rintro - kind ⟨⟩
  · exact fun several => (several rfl).elim
  · rw [isWhole, ← same]
    simp [Alternation.grouped, Alternation.text, Items.text, Branches.text,
      Atom.text]

end Spelling

namespace Pattern

open Spelling

variable {pattern : Pattern} {chars : Line}

/-- What matches at offset zero is found there. -/
theorem find?_of_matchAt?_zero
    {final : Progress}
    (preferred : pattern.matchAt? chars 0 = some final) :
    pattern.find? chars = some ⟨0, final⟩ :=
  find?_eq_some_iff.mpr
    ⟨Nat.zero_le _, preferred,
      fun _ isEarlier => (Nat.not_lt_zero _ isEarlier).elim⟩

theorem matchLine_of_matchAt?_zero
    {line : String}
    {final : Progress}
    (preferred : pattern.matchAt? (Line.ofText line) 0 = some final) :
    pattern.matchLine line = .ofWay (Line.ofText line) 0 final :=
  matchLine_of_find? (find?_of_matchAt?_zero preferred)

/-- A line reported as matched from offset zero on matches there. -/
theorem exists_matchAt?_zero
    {line : String}
    (matched : (pattern.matchLine line).matched = true)
    (atZero : (pattern.matchLine line).start = 0) :
    ∃ final, pattern.matchAt? (Line.ofText line) 0 = some final := by
  rw [matched_eq_isMatch, isMatch_iff_find?] at matched
  obtain ⟨⟨start, final⟩, isFound⟩ := matched
  rw [matchLine_of_find? isFound] at atZero
  obtain rfl : start = 0 := atZero
  obtain ⟨-, preferred, -⟩ := find?_eq_some_iff.mp isFound
  exact ⟨final, preferred⟩

/-- An optional group takes the last way of the group, and none where there is none. -/
theorem matchAt?_optional
    {source : String}
    {index groupCount offset : Nat}
    {body : Node}
    {anchored : Bool} :
    let group : Node := .group index body
    let optional : Pattern :=
      ⟨.repetition group .zeroOrOne true, groupCount, anchored, source⟩
    optional.matchAt? chars offset =
      some
        ((group.orderedPossibilities chars (optional.begin offset)).getLast?.getD
          (optional.begin offset)) := by
  intro group optional
  exact Node.head?_orderedPossibilities_repetition

/--
A pattern text in parentheses, without and with a `?` behind them.  On every line
the optional group reports the way of the group at offset zero that the group
lists last, or nothing consumed where there is no such way.  A line that the
group alone matches from offset zero on is reported for the way it lists first.
So the two outcomes are the same exactly when the first and the last way end
together and have captured the same texts, and they are so whenever the tree of
the group leaves no choice.
-/
theorem optional_group_takes_the_last_way
    {text : String}
    {pattern : Pattern}
    (compiled : compile text = .ok pattern) :
    ∃ once optional : Pattern,
      compile ("(" ++ text ++ ")") = .ok once ∧
        compile ("(" ++ text ++ ")?") = .ok optional ∧
        ∀ line,
          let chars := Line.ofText line
          let ways := once.root.orderedPossibilities chars (once.begin 0)
          optional.matchLine line =
              .ofWay chars 0 (ways.getLast?.getD (once.begin 0)) ∧
            ((once.matchLine line).matched = true →
              (once.matchLine line).start = 0 →
                ∃ first last,
                  ways.head? = some first ∧
                    ways.getLast? = some last ∧
                    once.matchLine line = .ofWay chars 0 first ∧
                    (optional.matchLine line = once.matchLine line ↔
                      last.offset = first.offset ∧
                        capturedTexts chars last.captures =
                          capturedTexts chars first.captures) ∧
                    (once.root.leavesNoChoice = true →
                      optional.matchLine line = once.matchLine line)) := by
  obtain ⟨spelling, spells, -⟩ := spells_of_compile compiled
  have spellsOnce :
      (spelling.grouped none).Spells ("(" ++ text ++ ")") :=
    spells.grouped none (by simp)
  have spellsOptional :
      (spelling.grouped (some .zeroOrOne)).Spells ("(" ++ text ++ ")?") :=
    spells.grouped (some .zeroOrOne) (by simp [RepeatKind.sign])
  let once := (spelling.grouped none).pattern ("(" ++ text ++ ")")
  let optional :=
    (spelling.grouped (some .zeroOrOne)).pattern ("(" ++ text ++ ")?")
  refine
    ⟨once, optional, compile_of_spells spellsOnce,
      compile_of_spells spellsOptional, fun line => ?_⟩
  intro chars ways
  have ofOptional :
      optional.matchLine line =
        .ofWay chars 0 (ways.getLast?.getD (once.begin 0)) :=
    matchLine_of_matchAt?_zero matchAt?_optional
  refine ⟨ofOptional, fun matched atZero => ?_⟩
  obtain ⟨first, preferred⟩ := exists_matchAt?_zero matched atZero
  have isFirst : ways.head? = some first := preferred
  have nonempty : ways ≠ [] := List.ne_nil_of_mem (List.mem_of_head? isFirst)
  have isLast : ways.getLast? = some (ways.getLast nonempty) :=
    List.getLast?_eq_some_getLast nonempty
  have ofOnce : once.matchLine line = .ofWay chars 0 first :=
    matchLine_of_matchAt?_zero preferred
  rw [isLast, Option.getD_some] at ofOptional
  have same :
      optional.matchLine line = once.matchLine line ↔
        (ways.getLast nonempty).offset = first.offset ∧
          capturedTexts chars (ways.getLast nonempty).captures =
            capturedTexts chars first.captures := by
    rw [ofOptional, ofOnce]
    exact Outcome.ofWay_inj
  refine ⟨first, ways.getLast nonempty, isFirst, isLast, ofOnce, same, ?_⟩
  intro noChoice
  have inside : (once.begin 0).Inside chars :=
    once.begin_inside (Nat.zero_le _)
  have sameWay : ways.getLast nonempty = first :=
    Node.eq_of_leavesNoChoice once.root noChoice inside
      (mem_prefer.mp (List.getLast_mem nonempty))
      (mem_prefer.mp (List.mem_of_head? isFirst))
  rw [ofOptional, ofOnce, sameWay]

/-- The branches are as long and capture nothing, and what follows repeats what they matched. -/
theorem optional_group_takes_the_last_way_without_choice :
    let group : Node :=
      .group 1
        (.concat [.group 2 (.alternation [.literal 'a', .dot]), .backref 2])
    let once : Pattern := ⟨group, 2, false, "((a|.)\\2)"⟩
    let optional : Pattern :=
      ⟨.repetition group .zeroOrOne true, 2, false, "((a|.)\\2)?"⟩
    compile "((a|.)\\2)" = .ok once ∧
      compile "((a|.)\\2)?" = .ok optional ∧
      group.leavesNoChoice = true ∧
      once.matchLine "aab" =
        { matched := true, start := 0, stop := 2, captures := ["", "aa", "a"] } ∧
      optional.matchLine "aab" = once.matchLine "aab" := by
  intro group once optional
  let left : Items := .cons (.plain 'a') none .nil
  let right : Items := .cons (.plain '.') none .nil
  let spelling : Alternation :=
    .of
      (.cons (.group (.of left (.cons right .nil))) none
        (.cons (.escape '2') none .nil))
      .nil
  have spells : spelling.Spells "(a|.)\\2" := by
    decide
  have spellsOnce : (spelling.grouped none).Spells "((a|.)\\2)" := by
    decide
  have spellsOptional :
      (spelling.grouped (some .zeroOrOne)).Spells "((a|.)\\2)?" := by
    decide
  have compiledOnce : compile "((a|.)\\2)" = .ok once :=
    compile_of_spells spellsOnce
  have compiledOptional : compile "((a|.)\\2)?" = .ok optional :=
    compile_of_spells spellsOptional
  have matched :
      once.matchLine "aab" =
        { matched := true, start := 0, stop := 2,
          captures := ["", "aa", "a"] } := by
    cbv
  obtain ⟨_, _, ofOnce, ofOptional, onLines⟩ :=
    optional_group_takes_the_last_way (compile_of_spells spells)
  cases ofOnce.symm.trans compiledOnce
  cases ofOptional.symm.trans compiledOptional
  obtain ⟨-, onMatch⟩ := onLines "aab"
  obtain ⟨_, _, -, -, -, -, sameOutcome⟩ :=
    onMatch (by rw [matched]) (by rw [matched])
  exact
    ⟨compiledOnce, compiledOptional, rfl, matched, sameOutcome rfl⟩

/-- The left branch is preferred, and the optional group takes the right one. -/
theorem optional_group_leaves_the_left_branch :
    let group : Node :=
      .group 1 (.alternation [.literal 'a', .concat [.literal 'a', .literal 'b']])
    let once : Pattern := ⟨group, 1, false, "(a|ab)"⟩
    let optional : Pattern :=
      ⟨.repetition group .zeroOrOne true, 1, false, "(a|ab)?"⟩
    (∃ pattern, compile "a|ab" = .ok pattern) ∧
      compile "(a|ab)" = .ok once ∧
      compile "(a|ab)?" = .ok optional ∧
      once.matchLine "ab" =
        { matched := true, start := 0, stop := 1, captures := ["", "a"] } ∧
      optional.matchLine "ab" =
        { matched := true, start := 0, stop := 2, captures := ["", "ab"] } ∧
      optional.matchLine "ab" ≠ once.matchLine "ab" := by
  intro group once optional
  let left : Items := .cons (.plain 'a') none .nil
  let right : Items := .cons (.plain 'a') none (.cons (.plain 'b') none .nil)
  let spelling : Alternation := .of left (.cons right .nil)
  have spells : spelling.Spells "a|ab" := by
    decide
  have spellsOnce : (spelling.grouped none).Spells "(a|ab)" := by
    decide
  have spellsOptional :
      (spelling.grouped (some .zeroOrOne)).Spells "(a|ab)?" := by
    decide
  have alone :
      once.matchLine "ab" =
        { matched := true, start := 0, stop := 1, captures := ["", "a"] } := by
    cbv
  have behind :
      optional.matchLine "ab" =
        { matched := true, start := 0, stop := 2, captures := ["", "ab"] } := by
    cbv
  refine
    ⟨⟨_, compile_of_spells spells⟩, compile_of_spells spellsOnce,
      compile_of_spells spellsOptional, alone, behind, ?_⟩
  rw [alone, behind]
  decide

end Pattern

end LineSearch
