import LineSearch.Proofs.CanonicalTree
import LineSearch.Proofs.FirstMatch

namespace LineSearch

/-!
# A pattern that begins with the start anchor

Whether only the first offset of a line is tried is read off the first character
of the pattern text.  The tree shows the same: going down to the first branch,
the first item and the repeated body, and into no group, one comes to the start
anchor.  Where that anchor governs the whole pattern, nothing can match from a
later offset, and trying these would change no outcome.
-/

namespace Node

/-- The node that is come to first when the tree is read, without going into a group. -/
def leading : Node → Node
  | .concat (item :: _) => item.leading
  | .alternation (branch :: _) => branch.leading
  | .repetition body _ _ => body.leading
  | node => node

end Node

namespace Spelling

open Node

theorem leading_chained_cons
    (item : Node)
    (rest : List Node) :
    (chained (item :: rest)).leading = item.leading := by
  cases rest with
  | nil => rfl
  | cons other later => simp only [chained, leading]

theorem leading_alternated
    (first : Node)
    (further : List Node) :
    (alternated first further).leading = first.leading := by
  cases further with
  | nil => rfl
  | cons branch later => simp only [alternated, leading]

theorem leading_repeated
    (atom : Node)
    (kind? : Option RepeatKind) :
    (repeated atom kind?).leading = atom.leading := by
  cases kind? with
  | none => rfl
  | some kind => simp only [repeated, leading]

/-- Of the atoms only a `^` outside of sets and escapes is the start anchor. -/
theorem Atom.leading_node_iff
    (atom : Atom)
    (opened : Nat) :
    (atom.node opened).leading = .anchor .lineStart ↔ atom = .plain '^' := by
  cases atom with
  | plain char =>
      unfold Atom.node plainNode
      split
      · exact iff_of_false (by rintro ⟨⟩) (by simp)
      · exact iff_of_true rfl rfl
      · exact iff_of_false (by rintro ⟨⟩) (by simp)
      · next notCaret _ =>
          refine iff_of_false (by rintro ⟨⟩) fun same => ?_
          exact notCaret (Atom.plain.inj same)
  | escape char =>
      unfold Atom.node escapeNode
      split <;> exact iff_of_false (by rintro ⟨⟩) (by rintro ⟨⟩)
  | set negated members =>
      exact iff_of_false (by rintro ⟨⟩) (by rintro ⟨⟩)
  | group body =>
      exact iff_of_false (by rintro ⟨⟩) (by rintro ⟨⟩)

/-- The first item of the first branch is a `^` outside of sets and escapes. -/
def Alternation.BeginsWithCaret (spelling : Alternation) : Prop :=
  ∃ kind? rest further,
    spelling = .of (.cons (.plain '^') kind? rest) further

/-- A first branch without items is the only one. -/
theorem Alternation.WellFormed.eq_empty
    {further : Branches}
    (formed : (Alternation.of .nil further).WellFormed) :
    further = .nil := by
  cases further with
  | nil => rfl
  | cons branch later =>
      have several : Branches.cons branch later ≠ .nil := by
        rintro ⟨⟩
      exact (formed.2.2 several rfl).elim

/-- The tree begins with the start anchor where the spelling begins with its sign. -/
theorem Alternation.leading_node_iff
    {spelling : Alternation}
    (formed : spelling.WellFormed)
    (opened : Nat) :
    (spelling.node opened).leading = .anchor .lineStart ↔
      spelling.BeginsWithCaret := by
  rcases spelling with ⟨_ | ⟨atom, kind?, rest⟩, further⟩
  · obtain rfl := formed.eq_empty
    refine iff_of_false (by rintro ⟨⟩) ?_
    rintro ⟨kind?, rest, further, ⟨⟩⟩
  · rw [Alternation.node, leading_alternated, Items.nodes,
      leading_chained_cons, leading_repeated, Atom.leading_node_iff]
    constructor
    · rintro rfl
      exact ⟨kind?, rest, further, rfl⟩
    · rintro ⟨_, _, _, same⟩
      cases same
      rfl

/-- So does its text. -/
theorem Alternation.head?_text_iff
    {spelling : Alternation}
    (formed : spelling.WellFormed) :
    spelling.text.head? = some '^' ↔ spelling.BeginsWithCaret := by
  rcases spelling with ⟨_ | ⟨atom, kind?, rest⟩, further⟩
  · obtain rfl := formed.eq_empty
    refine iff_of_false (by rintro ⟨⟩) ?_
    rintro ⟨kind?, rest, further, ⟨⟩⟩
  · constructor
    · intro begins
      cases atom with
      | plain char =>
          obtain rfl : char = '^' := Option.some.inj begins
          exact ⟨kind?, rest, further, rfl⟩
      | escape | set | group => cases begins
    · rintro ⟨_, _, _, same⟩
      cases same
      rfl

end Spelling

namespace Pattern

open Spelling

/-- Items that begin with the start anchor have no way behind offset zero. -/
theorem not_mem_of_begins_with_anchor
    {chars : Line}
    {items : List Node}
    {start way : Progress}
    (behind : start.offset ≠ 0) :
    way ∉
      Node.possibilities chars (chained (.anchor .lineStart :: items))
        start := by
  intro member
  cases items with
  | nil =>
      obtain ⟨atStart, -⟩ := Node.mem_anchor.mp member
      exact behind atStart
  | cons item rest =>
      obtain ⟨middle, ofAnchor, -⟩ := Node.mem_concat_cons.mp member
      obtain ⟨atStart, -⟩ := Node.mem_anchor.mp ofAnchor
      exact behind atStart

/-- Where only offset zero can match, it makes no difference whether others are tried. -/
theorem matchLine_eq_of_only_at_zero
    {pattern : Pattern}
    {text : String}
    (onlyThere :
      ∀ offset, offset ≠ 0 →
        pattern.matchAt? (Line.ofText text) offset = none)
    (anchored : Bool) :
    { pattern with anchoredStart := anchored }.matchLine text =
      pattern.matchLine text := by
  have sameFound :
      { pattern with anchoredStart := anchored }.find? (Line.ofText text) =
        pattern.find? (Line.ofText text) := by
    refine Option.ext fun found => ?_
    rw [find?_eq_some_iff, find?_eq_some_iff]
    refine and_congr_left fun ⟨preferred, _⟩ => ?_
    -- A match that is found begins at zero, and zero is tried in any case.
    have atZero : found.start = 0 := by
      refine Decidable.byContradiction fun behind => ?_
      cases preferred.symm.trans (onlyThere found.start behind)
    rw [atZero]
    exact iff_of_true (Nat.zero_le _) (Nat.zero_le _)
  rw [matchLine, matchLine, sameFound]

/-- An unrepeated `^` in front of a pattern without bars governs all of it. -/
theorem root_eq_chained
    {spelling : Alternation}
    {text : String}
    (begins : spelling.BeginsWithCaret)
    (same : spelling.text = text.toList)
    (unrepeated :
      ∀ second, text.toList[1]? = some second → second ∉ ['?', '*', '+'])
    (unbranched : (spelling.node 0).isAlternation = false) :
    ∃ items, spelling.node 0 = chained (.anchor .lineStart :: items) := by
  obtain ⟨kind?, rest, further, rfl⟩ := begins
  cases further with
  | cons branch later => cases unbranched
  | nil =>
      cases kind? with
      | none => exact ⟨_, rfl⟩
      | some kind =>
          have isSign : text.toList[1]? = some kind.sign := by
            rw [← same]
            rfl
          have noSign := unrepeated kind.sign isSign
          cases kind <;> exact (noSign (by decide)).elim

/--
A compiled pattern is marked as anchored exactly when its tree begins with the
start anchor.  When its text begins with a `^` that is not repeated, and the tree
is no alternation, then no line tells the mark from its absence.
-/
theorem anchored_start_is_an_optimisation
    {text : String}
    {pattern : Pattern}
    (compiled : compile text = .ok pattern) :
    (text.toList.head? = some '^' →
        (∀ second, text.toList[1]? = some second → second ∉ ['?', '*', '+']) →
        pattern.root.isAlternation = false →
          pattern.anchoredStart = true ∧
            ∀ line,
              pattern.matchLine line =
                { pattern with anchoredStart := false }.matchLine line) ∧
      (pattern.anchoredStart = true ↔
        pattern.root.leading = .anchor .lineStart) := by
  obtain ⟨spelling, ⟨formed, same⟩, rfl⟩ := spells_of_compile compiled
  have marked :
      (spelling.pattern text).anchoredStart = true ↔
        text.toList.head? = some '^' := by
    rw [Alternation.pattern, decide_eq_true_eq]
  have begins :
      text.toList.head? = some '^' ↔ spelling.BeginsWithCaret := by
    rw [← same]
    exact Alternation.head?_text_iff formed
  constructor
  · intro caret unrepeated unbranched
    refine ⟨marked.mpr caret, fun line => ?_⟩
    obtain ⟨items, root⟩ :=
      root_eq_chained (begins.mp caret) same unrepeated unbranched
    refine (matchLine_eq_of_only_at_zero (fun offset behind => ?_) false).symm
    refine matchAt?_eq_none_iff.mpr fun way => ?_
    rw [Alternation.pattern, root]
    exact not_mem_of_begins_with_anchor behind
  · exact
      marked.trans (begins.trans (Alternation.leading_node_iff formed 0).symm)

/-- The `^` governs a group here, and the line would match from its second character on. -/
theorem anchored_start_is_an_optimisation_in_front_of_a_group :
    let pattern : Pattern :=
      { root :=
          .concat
            [.anchor .lineStart,
              .group 1 (.alternation [.literal 'a', .literal 'b'])]
        groupCount := 1
        anchoredStart := true
        source := "^(a|b)" }
    compile "^(a|b)" = .ok pattern ∧
      (∀ second,
        "^(a|b)".toList[1]? = some second → second ∉ ['?', '*', '+']) ∧
      pattern.root.isAlternation = false ∧
      pattern.matchLine "xa" =
        { pattern with anchoredStart := false }.matchLine "xa" ∧
      pattern.root.leading = .anchor .lineStart := by
  intro pattern
  have spells :
      Alternation.Spells
        (.of
          (.cons (.plain '^') none
            (.cons
              (.group
                (.of (.cons (.plain 'a') none .nil)
                  (.cons (.cons (.plain 'b') none .nil) .nil)))
              none .nil))
          .nil)
        "^(a|b)" := by
    decide
  have compiled : compile "^(a|b)" = .ok pattern := compile_of_spells spells
  have unrepeated (second : Char) :
      "^(a|b)".toList[1]? = some second → second ∉ ['?', '*', '+'] := by
    rintro ⟨⟩
    decide
  obtain ⟨optimises, marked⟩ := anchored_start_is_an_optimisation compiled
  obtain ⟨isMarked, unmarked⟩ := optimises rfl unrepeated rfl
  exact
    ⟨compiled, unrepeated, rfl, unmarked "xa", marked.mp isMarked⟩

end Pattern

end LineSearch
