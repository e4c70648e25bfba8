import LineSearch.Proofs.CompiledSpelling
import LineSearch.Proofs.FirstMatch
import LineSearch.Proofs.Width
import Mathlib.Data.List.Basic

namespace LineSearch

/-!
# What greed prefers

A greedy repetition turns the list of its ways around, so it prefers the way it
generates last: the one that takes the last way of the body at every occurrence,
for as long as there is one.  Nothing makes that the longest way.  The body
lists its ways in its own order, and a body that is greedy itself, inside of a
group, already has its longest way in front.
-/

namespace Unroll

/-- The last way, and on from it by the last way again, as far as that advances. -/
def followLast
    (length : Nat)
    (step : Progress → List Progress)
    (start : Progress) :
    Progress :=
  match (step start).getLast? with
  | none => start
  | some next =>
      if _ : advances length start next = true then
        followLast length step next
      else
        next
  termination_by length - start.offset
  decreasing_by
    next advanced => simpa [advances] using advanced

/-- Where the last way leads, if there is any way. -/
def lastFollowed?
    (length : Nat)
    (step : Progress → List Progress)
    (start : Progress) :
    Option Progress :=
  (step start).getLast?.map fun next =>
    if advances length start next then
      followLast length step next
    else
      next

theorem followLast_eq
    (length : Nat)
    (step : Progress → List Progress)
    (start : Progress) :
    followLast length step start =
      (lastFollowed? length step start).getD start := by
  rw [followLast, lastFollowed?]
  cases (step start).getLast? with
  | none => rfl
  | some next => simp

private theorem findSome?_some_apply
    (items : List α)
    (value : α → β) :
    items.findSome? (fun item => some (value item)) =
      items.head?.map value := by
  cases items with
  | nil => rfl
  | cons item rest => rfl

/-- What is put out last on behalf of the successors is found by following the last one. -/
theorem getLast?_outputs_successors
    (length : Nat)
    (step : Progress → List Progress)
    (start : Progress) :
    ((successors length step start).flatMap (outputs length step)).getLast? =
      lastFollowed? length step start := by
  have later
      (next : Progress)
      (advanced : advances length start next = true) :
      (walk length step next).getLast? =
        some (followLast length step next) := by
    rw [walk_eq, List.getLast?_cons,
      getLast?_outputs_successors length step next, followLast_eq]
  have last (next : Progress) :
      (outputs length step (next, advances length start next)).getLast? =
        some
          (if advances length start next then
            followLast length step next
          else
            next) := by
    cases advanced : advances length start next with
    | false => rfl
    | true => exact later next advanced
  rw [successors, List.flatMap_map, List.getLast?_flatMap]
  simp only [last]
  rw [findSome?_some_apply, List.head?_reverse]
  rfl
  termination_by length - start.offset
  decreasing_by simpa [advances] using advanced

theorem getLast?_walk
    (length : Nat)
    (step : Progress → List Progress)
    (start : Progress) :
    (walk length step start).getLast? =
      some (followLast length step start) := by
  rw [walk_eq, List.getLast?_cons, getLast?_outputs_successors,
    followLast_eq]

section Even

/-!
Where all ways of a step are as long, and there are ways or none by the offset
alone, no chain leads further than that of the last ways.
-/

variable
  {length size : Nat}
  {step : Progress → List Progress}
  (even :
    ∀ start next, next ∈ step start → next.offset = start.offset + size)
  (alike :
    ∀ start other, other.offset = start.offset →
      step start ≠ [] → step other ≠ [])

include even

theorem le_followLast (start : Progress) :
    start.offset ≤ (followLast length step start).offset := by
  rw [followLast_eq, lastFollowed?]
  cases isLast : (step start).getLast? with
  | none => exact Nat.le_refl _
  | some next =>
      have forward : start.offset ≤ next.offset := by
        rw [even start next (List.mem_of_getLast? isLast)]
        exact Nat.le_add_right _ _
      rw [Option.map_some, Option.getD_some]
      by_cases advanced : advances length start next = true
      · rw [if_pos advanced]
        exact Nat.le_trans forward (le_followLast next)
      · rw [if_neg advanced]
        exact forward
  termination_by length - start.offset
  decreasing_by simpa [advances] using advanced

include alike

theorem exists_lastFollowed?
    {start other way : Progress}
    (same : other.offset = start.offset)
    (member :
      way ∈ (successors length step start).flatMap (outputs length step)) :
    ∃ last,
      lastFollowed? length step other = some last ∧
        way.offset ≤ last.offset := by
  -- The last way of `other` ends where `next` does; the two are followed together.
  obtain ⟨next, ofStep, reached⟩ := mem_outputs_successors.mp member
  have nonempty : step other ≠ [] :=
    alike start other same (List.ne_nil_of_mem ofStep)
  obtain ⟨last, isLast⟩ : ∃ last, (step other).getLast? = some last :=
    ⟨_, List.getLast?_eq_some_getLast nonempty⟩
  have level : last.offset = next.offset := by
    rw [even other last (List.mem_of_getLast? isLast),
      even start next ofStep, same]
  have forward : last.offset ≤ (followLast length step last).offset :=
    le_followLast even last
  rw [level] at forward
  rw [lastFollowed?, isLast, Option.map_some]
  refine ⟨_, rfl, ?_⟩
  rcases reached with isNext | ⟨advanced, ofWalk⟩
  · subst isNext
    split
    · exact forward
    · exact Nat.le_of_eq level.symm
  · have followed : advances length other last = true := by
      rw [← advanced, advances, advances, same, level]
    rw [if_pos followed]
    rw [walk_eq, List.mem_cons] at ofWalk
    rcases ofWalk with isNext | further
    · subst isNext
      exact forward
    · obtain ⟨final, follows, bounded⟩ :=
        exists_lastFollowed? level further
      rw [followLast_eq, follows]
      exact bounded
  termination_by length - start.offset
  decreasing_by simpa [advances] using advanced

theorem le_followLast_of_mem_walk
    {start way : Progress}
    (member : way ∈ walk length step start) :
    way.offset ≤ (followLast length step start).offset := by
  rw [walk_eq, List.mem_cons] at member
  rcases member with isStart | further
  · subst isStart
    exact le_followLast even way
  · obtain ⟨last, follows, bounded⟩ :=
      exists_lastFollowed? even alike rfl further
    rw [followLast_eq, follows]
    exact bounded

end Even

end Unroll

namespace Node

variable {chars : Line} {body : Node} {kind : RepeatKind} {start : Progress}

/-- Where the last way of the body leads, at every occurrence that is allowed. -/
def lastChain?
    (chars : Line)
    (body : Node)
    (kind : RepeatKind)
    (start : Progress) :
    Option Progress :=
  let step := possibilities chars body
  match kind with
  | .zeroOrOne => some ((step start).getLast?.getD start)
  | .zeroOrMore => some (Unroll.followLast chars.size step start)
  | .oneOrMore => Unroll.lastFollowed? chars.size step start

/-- A greedy repetition prefers the chain of the last ways. -/
theorem head?_orderedPossibilities_repetition :
    (orderedPossibilities chars (.repetition body kind true) start).head? =
      lastChain? chars body kind start := by
  have preferred :
      orderedPossibilities chars (.repetition body kind true) start =
        (possibilities chars (.repetition body kind true) start).reverse :=
    rfl
  rw [preferred, List.head?_reverse]
  cases kind with
  | zeroOrOne =>
      rw [possibilities]
      exact List.getLast?_cons
  | zeroOrMore =>
      rw [possibilities_zeroOrMore]
      exact Unroll.getLast?_walk _ _ _
  | oneOrMore =>
      rw [possibilities_oneOrMore]
      exact Unroll.getLast?_outputs_successors _ _ _

/-- No way of the node ends behind the one it prefers. -/
def LongestFirst
    (chars : Line)
    (node : Node)
    (start : Progress) :
    Prop :=
  ∀ first,
    (orderedPossibilities chars node start).head? = some first →
      ∀ way ∈ orderedPossibilities chars node start,
        way.offset ≤ first.offset

/-- The longest way is in front when nothing is consumed beyond the chain of last ways. -/
theorem longestFirst_iff
    (inside : start.Inside chars) :
    LongestFirst chars (.repetition body kind true) start ↔
      ∀ last, lastChain? chars body kind start = some last →
        ∀ stop, Matches chars (.repetition body kind true) start stop →
          stop.offset ≤ last.offset := by
  unfold LongestFirst
  rw [head?_orderedPossibilities_repetition]
  refine forall_congr' fun last => imp_congr_right fun _ => ?_
  refine forall_congr' fun stop => imp_congr_left ?_
  rw [orderedPossibilities, mem_prefer]
  exact mem_possibilities_iff inside

/-- A body that always consumes as much puts the longest way in front. -/
theorem longestFirst_of_width?
    {size : Nat}
    (width : body.width? = some size) :
    LongestFirst chars (.repetition body kind true) start := by
  have even :
      ∀ start next, next ∈ possibilities chars body start →
        next.offset = start.offset + size := by
    intro start next ofBody
    exact offset_of_width? body width ofBody
  have alike :
      ∀ start other, other.offset = start.offset →
        possibilities chars body start ≠ [] →
          possibilities chars body other ≠ [] := by
    intro start other same nonempty
    obtain ⟨way, member⟩ := List.exists_mem_of_ne_nil _ nonempty
    obtain ⟨_, others⟩ := exists_way_of_same_offset body width same member
    exact List.ne_nil_of_mem others
  intro first preferred way member
  rw [head?_orderedPossibilities_repetition] at preferred
  rw [orderedPossibilities, mem_prefer] at member
  cases kind with
  | zeroOrOne =>
      rw [possibilities, List.mem_cons] at member
      cases preferred
      rcases member with isStart | ofBody
      · subst isStart
        cases isLast : (possibilities chars body way).getLast? with
        | none => exact Nat.le_refl _
        | some last =>
            rw [Option.getD_some,
              even way last (List.mem_of_getLast? isLast)]
            exact Nat.le_add_right _ _
      · have nonempty := List.ne_nil_of_mem ofBody
        have last := even start _ (List.getLast_mem nonempty)
        rw [List.getLast?_eq_some_getLast nonempty, Option.getD_some]
        exact Nat.le_of_eq ((even start way ofBody).trans last.symm)
  | zeroOrMore =>
      rw [possibilities_zeroOrMore] at member
      cases preferred
      exact Unroll.le_followLast_of_mem_walk even alike member
  | oneOrMore =>
      rw [possibilities_oneOrMore] at member
      obtain ⟨last, follows, bounded⟩ :=
        Unroll.exists_lastFollowed? even alike rfl member
      have same : last = first := Option.some.inj (follows.symm.trans preferred)
      exact same ▸ bounded

end Node

namespace Pattern

open Spelling

/-- A pattern that is one greedy repetition reports the end of the chain of last ways. -/
theorem stop_eq_lastChain
    {pattern : Pattern}
    {body : Node}
    {kind : RepeatKind}
    {text : String}
    (isGreedy : pattern.root = .repetition body kind true)
    (isMatch : pattern.isMatch text = true) :
    ∃ last,
      Node.lastChain? (Line.ofText text) body kind
          (pattern.begin (pattern.matchLine text).start) = some last ∧
        (pattern.matchLine text).stop = last.offset := by
  obtain ⟨found, isFound⟩ := isMatch_iff_find?.mp isMatch
  obtain ⟨_, preferred, _⟩ := find?_eq_some_iff.mp isFound
  rw [matchAt?, isGreedy, Node.head?_orderedPossibilities_repetition] at preferred
  rw [matchLine_of_find? isFound]
  exact ⟨found.final, preferred, rfl⟩

/--
A greedy repetition prefers the chain of the body's last ways.  It is the
longest exactly when nothing is derived for the repetition that ends further,
and so it is whenever the body always consumes as much.
-/
theorem greedy_prefers_the_last_chain
    (chars : Line)
    (body : Node)
    (kind : RepeatKind)
    (start : Progress)
    (inside : start.Inside chars) :
    (Node.orderedPossibilities chars (.repetition body kind true)
        start).head? = Node.lastChain? chars body kind start ∧
      (Node.LongestFirst chars (.repetition body kind true) start ↔
        ∀ last, Node.lastChain? chars body kind start = some last →
          ∀ stop,
            Node.Matches chars (.repetition body kind true) start stop →
              stop.offset ≤ last.offset) ∧
      (body.width?.isSome = true →
        Node.LongestFirst chars (.repetition body kind true) start) ∧
      ∀ (pattern : Pattern) (text : String),
        pattern.root = .repetition body kind true →
          pattern.isMatch text = true →
            ∃ last,
              Node.lastChain? (Line.ofText text) body kind
                  (pattern.begin (pattern.matchLine text).start) =
                some last ∧
              (pattern.matchLine text).stop = last.offset := by
  refine ⟨Node.head?_orderedPossibilities_repetition, Node.longestFirst_iff inside, ?_, ?_⟩
  · intro hasWidth
    obtain ⟨size, width⟩ := Option.isSome_iff_exists.mp hasWidth
    exact Node.longestFirst_of_width? width
  · intro pattern text isGreedy isMatch
    exact stop_eq_lastChain isGreedy isMatch

/-- Branches of one width are repeated as far as the line admits. -/
theorem greedy_prefers_the_last_chain_equal_branches :
    let start : Progress := ⟨1, #[none, some ⟨0, 1⟩]⟩
    let body : Node :=
      .group 1 (.alternation [.literal 'a', .charClass .digit])
    start.Inside #['x', '7', 'a'] ∧
      Node.LongestFirst #['x', '7', 'a']
        (.repetition body .zeroOrMore true) start := by
  intro start body
  have inside : start.Inside #['x', '7', 'a'] :=
    ⟨by decide, (Captures.Inside.unset 1 3).record 1 (by decide) (by decide)⟩
  have everything :=
    greedy_prefers_the_last_chain #['x', '7', 'a'] body .zeroOrMore start
      inside
  exact ⟨inside, everything.2.2.1 rfl⟩

/-- The group turns the ways of its body around, and the repetition those of the group. -/
theorem greedy_in_a_group_is_not_longest_first :
    let pattern : Pattern :=
      {
        root :=
          .repetition (.group 1 (.repetition (.literal 'a') .oneOrMore true))
            .zeroOrOne true
        groupCount := 1
        anchoredStart := false
        source := "(a+)?"
      }
    compile "(a+)?" = .ok pattern ∧
      (pattern.begin 0).Inside (Line.ofText "aa") ∧
      ¬ Node.LongestFirst (Line.ofText "aa") pattern.root
        (pattern.begin 0) ∧
      pattern.matchLine "aa" =
        { matched := true, start := 0, stop := 1, captures := ["", "a"] } ∧
      Node.Matches (Line.ofText "aa") pattern.root (pattern.begin 0)
        ⟨2, #[none, some ⟨0, 2⟩]⟩ := by
  intro pattern
  let inner : Items := .cons (.plain 'a') (some .oneOrMore) .nil
  let spelling : Alternation :=
    .of (.cons (.group (.of inner .nil)) (some .zeroOrOne) .nil) .nil
  have spells : spelling.Spells "(a+)?" := by
    decide
  have inside : (pattern.begin 0).Inside (Line.ofText "aa") :=
    pattern.begin_inside (Nat.zero_le _)
  have ways :
      Node.orderedPossibilities (Line.ofText "aa") pattern.root
          (pattern.begin 0) =
        [⟨1, #[none, some ⟨0, 1⟩]⟩, ⟨2, #[none, some ⟨0, 2⟩]⟩,
          ⟨0, #[none, none]⟩] := by
    cbv
  have longer :
      ⟨2, #[none, some ⟨0, 2⟩]⟩ ∈
        Node.possibilities (Line.ofText "aa") pattern.root
          (pattern.begin 0) := by
    rw [← mem_prefer, ← Node.orderedPossibilities, ways]
    decide
  refine ⟨compile_of_spells spells, inside, ?_, by cbv, ?_⟩
  · intro longestFirst
    have bounded := longestFirst ⟨1, #[none, some ⟨0, 1⟩]⟩
      (by rw [ways]; rfl) ⟨2, #[none, some ⟨0, 2⟩]⟩ (by rw [ways]; decide)
    exact absurd bounded (by decide)
  · exact (Node.mem_possibilities_iff inside).mp longer

end Pattern

end LineSearch
