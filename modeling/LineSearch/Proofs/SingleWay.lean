import LineSearch.Proofs.CanonicalTree
import LineSearch.Proofs.FirstMatch

namespace LineSearch

/-!
# Repeating what can be matched in one way

Where a node has at most one way from any place, its repetitions do not branch.
They are one chain of states, which ends where the node fails or behind the
first occurrence that consumed nothing, and a repetition lists the chain forward
or backward.

The chain is laid down by itself, in terms of the places alone.  The loop goes by
how much of the line is left, and that comes to the same as long as no stretch
that is copied sticks out of the line.
-/

namespace Captures

/-- What the slot holds lies in a line of this length, if it is not empty. -/
def Fits (captures : Captures) (length index : Nat) : Prop :=
  ∀ span,
    captures.span? index = some span →
      span.length ≠ 0 →
        span.stop ≤ length

theorem Inside.fits
    {captures : Captures}
    {length : Nat}
    (inside : captures.Inside length)
    (index : Nat) :
    captures.Fits length index := by
  intro span held _
  exact (inside index span held).2

end Captures

/-- On from a state without going back, without leaving the line and without spoiling a slot. -/
structure Onward (chars : Line) (start way : Progress) : Prop where
  forward : start.offset ≤ way.offset
  bounded : way.offset ≤ max start.offset chars.size
  fits :
    ∀ index,
      start.captures.Fits chars.size index →
        way.captures.Fits chars.size index

namespace Onward

variable {chars : Line} {start middle way : Progress}

theorem refl (start : Progress) : Onward chars start start :=
  ⟨Nat.le_refl _, Nat.le_max_left _ _, fun _ fits => fits⟩

theorem trans
    (first : Onward chars start middle)
    (second : Onward chars middle way) :
    Onward chars start way where
  forward := Nat.le_trans first.forward second.forward
  bounded :=
    Nat.le_trans second.bounded
      (Nat.max_le.mpr ⟨first.bounded, Nat.le_max_right _ _⟩)
  fits := fun index ofStart => second.fits index (first.fits index ofStart)

/-- Moving on to a place of the line leaves the slots alone. -/
theorem moveTo
    {offset : Nat}
    (forward : start.offset ≤ offset)
    (bounded : offset ≤ chars.size) :
    Onward chars start ⟨offset, start.captures⟩ :=
  ⟨forward, Nat.le_trans bounded (Nat.le_max_right _ _), fun _ fits => fits⟩

/-- The stretch that a group holds is empty, or it ends in the line. -/
theorem closeGroup
    (ofBody : Onward chars start way)
    (index : Nat) :
    Onward chars start (way.closeGroup index start.offset) where
  forward := ofBody.forward
  bounded := ofBody.bounded
  fits := by
    intro query ofStart span held nonempty
    rw [Progress.closeGroup, Captures.span?_record] at held
    split at held
    · have bounded : way.offset ≤ max start.offset chars.size :=
        ofBody.bounded
      cases held
      simp only [Span.length] at nonempty ⊢
      omega
    · exact ofBody.fits query ofStart span held nonempty

/-- What is left of the line becomes less exactly when something was consumed. -/
theorem advances_eq_ne (onward : Onward chars start way) :
    Unroll.advances chars.size start way = (way.offset != start.offset) := by
  have forward := onward.forward
  have bounded := onward.bounded
  rw [Bool.eq_iff_iff, Unroll.advances, decide_eq_true_iff, bne_iff_ne]
  omega

end Onward

namespace Node

variable {chars : Line} {node child : Node} {start way : Progress}

/--
No slot that a back reference of the tree names reaches behind the line, where
there would be nothing to look up.  It is all that is asked of a state: it may
itself be behind the line, and the other slots may hold anything.
-/
def Readable (chars : Line) (node : Node) (start : Progress) : Prop :=
  ∀ index,
    (Node.backref index).Within node →
      start.captures.Fits chars.size index

namespace Readable

theorem ofInside
    (inside : start.captures.Inside chars.size) :
    Readable chars node start :=
  fun index _ => inside.fits index

theorem ofPart
    {part whole : Node}
    (readable : Readable chars whole start)
    (among : part ∈ whole.parts) :
    Readable chars part start :=
  fun index within => readable index (.inPart among within)

theorem onward
    (readable : Readable chars node start)
    (onward : Onward chars start way) :
    Readable chars node way :=
  fun index within => onward.fits index (readable index within)

end Readable

private theorem onward_of_mem_concat
    {items : List Node}
    (ofItems :
      ∀ item ∈ items, ∀ {start way : Progress},
        Readable chars item start →
          way ∈ possibilities chars item start →
            Onward chars start way)
    (readable : ∀ item ∈ items, Readable chars item start)
    (member : way ∈ possibilities chars (.concat items) start) :
    Onward chars start way := by
  induction items generalizing start with
  | nil =>
      obtain rfl := mem_concat_nil.mp member
      exact .refl way
  | cons item rest inductionHypothesis =>
      obtain ⟨middle, ofItem, ofRest⟩ := mem_concat_cons.mp member
      have first : Onward chars start middle :=
        ofItems item List.mem_cons_self (readable item List.mem_cons_self)
          ofItem
      have others : Onward chars middle way :=
        inductionHypothesis
          (fun later among => ofItems later (List.mem_cons_of_mem _ among))
          (fun later among =>
            (readable later (List.mem_cons_of_mem _ among)).onward first)
          ofRest
      exact first.trans others

private theorem onward_of_mem_repetition
    {kind : RepeatKind}
    {greedy : Bool}
    (ofChild :
      ∀ {start way : Progress},
        Readable chars child start →
          way ∈ possibilities chars child start →
            Onward chars start way)
    (readable : Readable chars child start)
    (member :
      way ∈ possibilities chars (.repetition child kind greedy) start) :
    Onward chars start way := by
  induction start using Unroll.walk.induct chars.size generalizing kind with
  | case1 start inductionHypothesis =>
      rcases mem_repetition.mp member with
        ⟨_, rfl⟩ | ⟨next, isNext, rfl | ⟨_, advanced, further⟩⟩
      · exact .refl way
      · exact ofChild readable isNext
      · have first : Onward chars start next := ofChild readable isNext
        exact
          first.trans
            (inductionHypothesis next advanced (readable.onward first) further)

private theorem onward_of_mem_backref
    {index : Nat}
    (fits : start.captures.Fits chars.size index)
    (member : way ∈ possibilities chars (.backref index) start) :
    Onward chars start way := by
  obtain ⟨span, held, copied⟩ := mem_backref.mp member
  obtain ⟨nonempty, same, rfl⟩ := Progress.mem_copy.mp copied
  have bounded : span.stop ≤ chars.size := fits span held nonempty
  -- The copy is as long as the stretch, so the line goes on for so long.
  have sizes := congrArg Array.size same
  simp only [Span.of, Array.size_extract] at sizes
  simp only [Span.length] at sizes nonempty ⊢
  exact .moveTo (Nat.le_add_right _ _) (by omega)

/-- Every way leads onward, wherever it starts, if the tree can read its slots. -/
theorem onward_of_mem_possibilities
    (node : Node)
    (readable : Readable chars node start)
    (member : way ∈ possibilities chars node start) :
    Onward chars start way := by
  induction node using treeInduction generalizing start way with
  | single node test tested =>
      rw [possibilities_of_test? tested] at member
      obtain ⟨char, present, _, rfl⟩ := Progress.mem_consume.mp member
      obtain ⟨inLine, _⟩ := Array.getElem?_eq_some_iff.mp present
      exact .moveTo (Nat.le_succ _) inLine
  | anchor place =>
      obtain ⟨_, rfl⟩ := mem_anchor.mp member
      exact .refl way
  | concat items inductionHypothesis =>
      exact
        onward_of_mem_concat inductionHypothesis
          (fun item among => readable.ofPart among) member
  | alternation branches inductionHypothesis =>
      obtain ⟨branch, among, ofBranch⟩ := mem_alternation.mp member
      exact inductionHypothesis branch among (readable.ofPart among) ofBranch
  | repetition body kind greedy inductionHypothesis =>
      exact
        onward_of_mem_repetition inductionHypothesis
          (readable.ofPart List.mem_cons_self) member
  | group index body inductionHypothesis =>
      obtain ⟨inner, ofBody, rfl⟩ := mem_group.mp member
      have onward : Onward chars start inner :=
        inductionHypothesis (readable.ofPart List.mem_cons_self) ofBody
      exact onward.closeGroup index
  | backref index =>
      exact onward_of_mem_backref (readable index .self) member

/-- From wherever the node can read its slots it has at most one way. -/
def SingleWay (chars : Line) (child : Node) : Prop :=
  ∀ start,
    Readable chars child start →
      (possibilities chars child start).length ≤ 1

/--
The states that are reached by taking the only way of the node again and again,
until there is none or nothing was consumed.
-/
inductive Chain (chars : Line) (child : Node) :
    Progress → List Progress → Prop where
  /-- The node fails. -/
  | fails
      {start : Progress} :
      possibilities chars child start = [] →
      Chain chars child start []
  /-- The node consumes nothing, and is not tried again. -/
  | stays
      {start next : Progress} :
      possibilities chars child start = [next] →
      next.offset = start.offset →
      Chain chars child start [next]
  /-- The node consumes something, and the chain goes on from there. -/
  | moves
      {start next : Progress}
      {rest : List Progress} :
      possibilities chars child start = [next] →
      next.offset ≠ start.offset →
      Chain chars child next rest →
      Chain chars child start (next :: rest)

namespace Chain

/-- There is no more than one chain from a state. -/
theorem unique
    {states others : List Progress}
    (chain : Chain chars child start states)
    (other : Chain chars child start others) :
    states = others := by
  induction chain generalizing others with
  | fails none =>
      cases other with
      | fails _ => rfl
      | stays one _ => cases none.symm.trans one
      | moves one _ _ => cases none.symm.trans one
  | stays one same =>
      cases other with
      | fails none => cases none.symm.trans one
      | stays another _ => exact one.symm.trans another
      | moves another moved _ =>
          obtain rfl := List.singleton_inj.mp (one.symm.trans another)
          exact absurd same moved
  | moves one moved _ inductionHypothesis =>
      cases other with
      | fails none => cases none.symm.trans one
      | stays another same =>
          obtain rfl := List.singleton_inj.mp (one.symm.trans another)
          exact absurd same moved
      | moves another _ rest =>
          obtain rfl := List.singleton_inj.mp (one.symm.trans another)
          rw [inductionHypothesis rest]

/-- A chain begins with the only way of the node. -/
theorem possibilities_eq
    {states : List Progress}
    (chain : Chain chars child start states) :
    possibilities chars child start = states.head?.toList := by
  cases chain with
  | fails none => exact none
  | stays one _ => exact one
  | moves one _ _ => exact one

end Chain

/-- One or more occurrences of a node with a single way are its chain. -/
theorem SingleWay.chain
    {start : Progress}
    (single : SingleWay chars child)
    (readable : Readable chars child start)
    (greedy : Bool) :
    Chain chars child start
      (possibilities chars (.repetition child .oneOrMore greedy) start) := by
  rw [possibilities_oneOrMore, Unroll.successors, List.flatMap_map]
  rcases Nat.le_one_iff_eq_zero_or_eq_one.mp (single start readable) with
    isZero | isOne
  · have none : possibilities chars child start = [] :=
      List.length_eq_zero_iff.mp isZero
    rw [none, List.flatMap_nil]
    exact .fails none
  · obtain ⟨next, one⟩ := List.length_eq_one_iff.mp isOne
    have onward : Onward chars start next :=
      onward_of_mem_possibilities child readable
        (one ▸ List.mem_singleton_self next)
    rw [one, List.flatMap_singleton]
    by_cases same : next.offset = start.offset
    · have stopped : Unroll.advances chars.size start next = false := by
        rw [onward.advances_eq_ne, same, bne_self_eq_false]
      rw [stopped, Unroll.outputs]
      exact .stays one same
    · have advanced : Unroll.advances chars.size start next = true := by
        rw [onward.advances_eq_ne, bne_iff_ne]
        exact same
      have rest := SingleWay.chain single (readable.onward onward) greedy
      rw [possibilities_oneOrMore] at rest
      rw [advanced, Unroll.outputs, Unroll.walk_eq]
      exact .moves one same rest
  termination_by chars.size - start.offset
  decreasing_by simpa [Unroll.advances] using advanced

/-- Any number of occurrences are none at all, then one or more. -/
theorem possibilities_zeroOrMore_eq_cons
    {greedy : Bool} :
    possibilities chars (.repetition child .zeroOrMore greedy) start =
      start ::
        possibilities chars (.repetition child .oneOrMore greedy) start := by
  rw [possibilities_zeroOrMore, possibilities_oneOrMore, Unroll.walk_eq]

section ChoiceFree

/-- No node of the tree is an alternation or a repetition. -/
def choiceFree (root : Node) : Bool :=
  root.all fun node => !node.isAlternation && !node.isRepetition

private theorem length_flatMap_le_one
    {ways : List Progress}
    {further : Progress → List Progress}
    (few : ways.length ≤ 1)
    (fewFurther : ∀ way, (further way).length ≤ 1) :
    (ways.flatMap further).length ≤ 1 := by
  match ways with
  | [] => exact Nat.zero_le 1
  | [way] =>
      rw [List.flatMap_singleton]
      exact fewFurther way

private theorem length_prefer
    (node : Node)
    (ways : List Progress) :
    (prefer node ways).length = ways.length := by
  unfold prefer
  split <;> simp

/-- A tree without choices has at most one way, from any state. -/
theorem length_possibilities_le_one
    (node : Node)
    (choiceFree : node.choiceFree = true)
    (start : Progress) :
    (possibilities chars node start).length ≤ 1 := by
  induction node using treeInduction generalizing start with
  | single node test tested =>
      rw [possibilities_of_test? tested, Progress.consume]
      cases chars[start.offset]? with
      | none => exact Nat.zero_le 1
      | some char =>
          dsimp only
          split <;> simp
  | anchor place =>
      cases place <;>
        · rw [possibilities, Progress.stay]
          split <;> simp
  | concat items inductionHypothesis =>
      have ofItems := (all_iff.mp choiceFree).2
      rw [possibilities]
      clear choiceFree
      induction items generalizing start with
      | nil => exact Nat.le_refl 1
      | cons item rest ofRest =>
          rw [sequence]
          refine length_flatMap_le_one ?_ fun middle => ?_
          · rw [length_prefer]
            exact
              inductionHypothesis item List.mem_cons_self
                (ofItems item List.mem_cons_self) start
          · exact
              ofRest
                (fun later among =>
                  inductionHypothesis later (List.mem_cons_of_mem _ among))
                middle
                (fun later among => ofItems later (List.mem_cons_of_mem _ among))
  | alternation branches => cases (all_iff.mp choiceFree).1
  | repetition body kind greedy => cases (all_iff.mp choiceFree).1
  | group index body inductionHypothesis =>
      rw [possibilities, List.length_map, length_prefer]
      exact
        inductionHypothesis ((all_iff.mp choiceFree).2 body List.mem_cons_self)
          start
  | backref index =>
      rw [possibilities]
      cases start.captures.span? index with
      | none => exact Nat.zero_le 1
      | some span =>
          simp only [Progress.copy]
          split <;> simp

end ChoiceFree

section Run

/-- How many characters from this offset on are admitted before one is not. -/
def runLength (chars : Line) (test : Char → Bool) (offset : Nat) : Nat :=
  ((chars.toList.drop offset).takeWhile test).length

/-- The chain of a single character passes through a run of admitted ones. -/
theorem chain_of_test?
    {test : Char → Bool}
    (tested : node.test? = some test)
    (start : Progress) :
    Chain chars node start
      ((List.range' (start.offset + 1)
            (runLength chars test start.offset)).map
        fun offset => ⟨offset, start.captures⟩) := by
  have ways :
      possibilities chars node start = start.consume chars test :=
    possibilities_of_test? tested
  rw [Progress.consume, ← Array.getElem?_toList] at ways
  cases present : chars.toList[start.offset]? with
  | none =>
      rw [present] at ways
      have ended : chars.toList.drop start.offset = [] :=
        List.drop_eq_nil_of_le (List.getElem?_eq_none_iff.mp present)
      rw [runLength, ended]
      exact .fails ways
  | some char =>
      rw [present] at ways
      obtain ⟨inLine, isChar⟩ := List.getElem?_eq_some_iff.mp present
      have next :
          chars.toList.drop start.offset =
            char :: chars.toList.drop (start.offset + 1) := by
        rw [← isChar, List.drop_eq_getElem_cons inLine]
      rw [runLength, next, List.takeWhile_cons]
      cases admitted : test char with
      | false =>
          exact .fails (by simpa [admitted] using ways)
      | true =>
          have one :
              possibilities chars node start =
                [⟨start.offset + 1, start.captures⟩] := by
            simpa [admitted] using ways
          exact
            .moves one (Nat.succ_ne_self _)
              (chain_of_test? tested ⟨start.offset + 1, start.captures⟩)
  termination_by chars.size - start.offset
  decreasing_by exact Nat.sub_succ_lt_self _ _ (by simpa using inLine)

end Run

/-- A repetition of a node with a single way lists the states of its chain. -/
theorem orderedPossibilities_of_chain
    {chain : List Progress}
    (single : SingleWay chars child)
    (readable : Readable chars child start)
    (isChain : Chain chars child start chain) :
    orderedPossibilities chars (.repetition child .zeroOrMore true) start =
        chain.reverse ++ [start] ∧
      orderedPossibilities chars (.repetition child .oneOrMore true) start =
        chain.reverse ∧
      orderedPossibilities chars (.repetition child .zeroOrOne true) start =
        chain.head?.toList ++ [start] := by
  have further :
      possibilities chars (.repetition child .oneOrMore true) start = chain :=
    (single.chain readable true).unique isChain
  have turned (kind : RepeatKind) :
      orderedPossibilities chars (.repetition child kind true) start =
        (possibilities chars (.repetition child kind true) start).reverse :=
    rfl
  refine ⟨?_, ?_, ?_⟩
  · rw [turned, possibilities_zeroOrMore_eq_cons, further, List.reverse_cons]
  · rw [turned, further]
  · rw [turned, possibilities, isChain.possibilities_eq, List.reverse_cons]
    cases chain.head? <;> rfl

/-- How much of a run of this length a greedy repetition takes. -/
def taken : RepeatKind → Nat → Nat
  | .zeroOrOne, run => min 1 run
  | .zeroOrMore, run | .oneOrMore, run => run

/-- What a greedy repetition of a single character prefers is the whole run. -/
theorem offset_of_head?_orderedPossibilities
    {test : Char → Bool}
    {kind : RepeatKind}
    {first : Progress}
    (tested : node.test? = some test)
    (readable : Readable chars node start)
    (preferred :
      (orderedPossibilities chars (.repetition node kind true) start).head? =
        some first) :
    first.offset =
      start.offset + taken kind (runLength chars test start.offset) := by
  have choiceFree : node.choiceFree = true := by
    cases node <;> first | rfl | cases tested
  obtain ⟨ofStar, ofPlus, ofOption⟩ :=
    orderedPossibilities_of_chain
      (fun start _ => length_possibilities_le_one node choiceFree start)
      readable (chain_of_test? tested start)
  generalize runLength chars test start.offset = run at ofStar ofPlus ofOption ⊢
  cases kind with
  | zeroOrOne =>
      rw [ofOption, List.head?_map, List.head?_range'] at preferred
      cases run with
      | zero =>
          cases preferred
          rfl
      | succ more =>
          cases preferred
          rw [taken, Nat.min_eq_left (Nat.succ_pos more)]
  | zeroOrMore =>
      rw [ofStar, List.head?_append, List.head?_reverse, List.getLast?_map,
        List.getLast?_range'] at preferred
      cases run with
      | zero =>
          cases preferred
          rfl
      | succ more =>
          cases preferred
          dsimp only [taken]
          omega
  | oneOrMore =>
      rw [ofPlus, List.head?_reverse, List.getLast?_map,
        List.getLast?_range'] at preferred
      cases run with
      | zero => cases preferred
      | succ more =>
          cases preferred
          dsimp only [taken]
          omega

end Node

namespace Pattern

open Node

/--
A greedy repetition of a node with a single way goes from the most occurrences
to the fewest.  Its ways are the states of the one chain there is, backward, and
the start behind them where no occurrence is asked for; without greed they are
the same, forward.  A node without choices has a single way on every line.  So a
single character that is repeated takes the whole run of what it admits.
-/
theorem single_ways_are_repeated_along_one_chain :
    (∀ (chars : Line) (child : Node) (start : Progress),
      SingleWay chars child →
        Readable chars child start →
          let ordered (kind : RepeatKind) (greedy : Bool) : List Progress :=
            orderedPossibilities chars (.repetition child kind greedy) start
          ∃ chain,
            (∀ states, Chain chars child start states ↔ states = chain) ∧
              ordered .zeroOrMore true = chain.reverse ++ [start] ∧
              ordered .oneOrMore true = chain.reverse ∧
              ordered .zeroOrOne true = chain.head?.toList ++ [start] ∧
              ∀ kind, ordered kind false = (ordered kind true).reverse) ∧
      (∀ (chars : Line) (child : Node),
        child.choiceFree = true → SingleWay chars child) ∧
      ∀ (pattern : Pattern) (node : Node) (kind : RepeatKind)
          (test : Char → Bool) (text : String),
        pattern.root = .repetition node kind true →
          node.test? = some test →
            (pattern.matchLine text).matched = true →
              (pattern.matchLine text).stop =
                (pattern.matchLine text).start +
                  taken kind
                    (runLength (Line.ofText text) test
                      (pattern.matchLine text).start) := by
  refine ⟨?_, ?_, ?_⟩
  · intro chars child start single readable ordered
    have isChain := single.chain readable true
    obtain ⟨ofStar, ofPlus, ofOption⟩ :=
      orderedPossibilities_of_chain single readable isChain
    refine ⟨_, fun states => ?_, ofStar, ofPlus, ofOption, fun kind => ?_⟩
    · constructor
      · intro other
        exact other.unique isChain
      · rintro rfl
        exact isChain
    · have turned : ordered kind true = (ordered kind false).reverse := by
        cases kind <;> rfl
      rw [turned, List.reverse_reverse]
  · intro chars child choiceFree start _
    exact length_possibilities_le_one child choiceFree start
  · intro pattern node kind test text isGreedy tested matched
    rw [matched_eq_isMatch, isMatch_iff_find?] at matched
    obtain ⟨found, isFound⟩ := matched
    obtain ⟨bounded, preferred, _⟩ := find?_eq_some_iff.mp isFound
    rw [matchAt?, isGreedy] at preferred
    rw [matchLine_of_find? isFound]
    exact
      offset_of_head?_orderedPossibilities tested
        (.ofInside (pattern.begin_inside bounded).captures) preferred

/-- The chain of a group that also holds at the end of the line ends with an empty occurrence. -/
theorem single_ways_are_repeated_along_one_chain_to_the_end :
    let chars : Line := #['x', 'a', 'a']
    let child : Node :=
      .group 1 (.alternation [.literal 'a', .anchor .lineEnd])
    let start : Progress := ⟨1, #[none, none]⟩
    SingleWay chars child ∧
      Readable chars child start ∧
      orderedPossibilities chars (.repetition child .zeroOrMore true) start =
        [⟨3, #[none, some ⟨3, 3⟩]⟩, ⟨3, #[none, some ⟨2, 3⟩]⟩,
          ⟨2, #[none, some ⟨1, 2⟩]⟩, ⟨1, #[none, none]⟩] := by
  intro chars child start
  have single : SingleWay chars child := by
    intro state _
    have listed :
        (possibilities chars child state).length =
          (state.consume chars (· == 'a')).length +
            (state.stay (state.offset == chars.size)).length := by
      simp [child, possibilities, choices, prefer, isGreedyRepeat]
    rw [listed, Progress.consume, Progress.stay]
    -- A character stands before the end of the line, and nothing at it.
    cases present : chars[state.offset]? with
    | none =>
        dsimp only
        split <;> simp
    | some char =>
        obtain ⟨inLine, _⟩ := Array.getElem?_eq_some_iff.mp present
        rw [beq_false_of_ne (Nat.ne_of_lt inLine)]
        dsimp only
        split <;> simp
  have readable : Readable chars child start :=
    .ofInside (.unset 1 3)
  obtain ⟨chain, isChain, ofStar, _⟩ :=
    single_ways_are_repeated_along_one_chain.1 chars child start single
      readable
  have states :
      Chain chars child start
        [⟨2, #[none, some ⟨1, 2⟩]⟩, ⟨3, #[none, some ⟨2, 3⟩]⟩,
          ⟨3, #[none, some ⟨3, 3⟩]⟩] :=
    .moves (by decide) (by decide)
      (.moves (by decide) (by decide) (.stays (by decide) rfl))
  rw [← (isChain _).mp states] at ofStar
  exact ⟨single, readable, ofStar⟩

end Pattern

end LineSearch
