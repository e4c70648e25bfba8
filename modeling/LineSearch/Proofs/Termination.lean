import LineSearch.Proofs.RightRecursion

namespace LineSearch.Node

/-!
# Matching comes to an end

Listing the ways of a node asks for the ways of its parts, and a repetition asks
its body again and again from a stack that grows as it is emptied.  Nothing in
the rules counts how often.  `Returns` states these rules as they are: a request
returns a list only when a finite derivation says so, and a recursion that went
on for ever would return nothing.  Inside the line every request returns, and
returns what the functions compute.
-/

/-- What the recursion can be asked to list. -/
inductive Request where
  /-- The ways of a node, in the order in which it generates them. -/
  | ways (node : Node) (start : Progress)
  /-- The ways of a node, in order of preference. -/
  | preferred (node : Node) (start : Progress)
  /-- The ways of these nodes one after the other. -/
  | items (nodes : List Node) (start : Progress)
  /-- What a repetition puts out that has this stack, its top at the end, and has put out this. -/
  | loop (body : Node) (stack : List Unroll.Pending) (done : List Progress)

/-- A request returns a list, by way of the requests it makes itself. -/
inductive Returns (chars : Line) : Request → List Progress → Prop where
  | single
      {node : Node}
      {test : Char → Bool}
      {start : Progress} :
      node.test? = some test →
      Returns chars (.ways node start) (start.consume chars test)
  | anchor
      {place : Anchor}
      {start : Progress} :
      Returns chars (.ways (.anchor place) start)
        (start.stay (start.offset == place.offset chars))
  | concat
      {items : List Node}
      {start : Progress}
      {ways : List Progress} :
      Returns chars (.items items start) ways →
      Returns chars (.ways (.concat items) start) ways
  | alternation
      {branches : List Node}
      {start : Progress}
      {waysOf : Node → List Progress} :
      (∀ branch ∈ branches,
        Returns chars (.preferred branch start) (waysOf branch)) →
      Returns chars (.ways (.alternation branches) start)
        (branches.flatMap waysOf)
  | zeroOrOne
      {body : Node}
      {greedy : Bool}
      {start : Progress}
      {ways : List Progress} :
      Returns chars (.ways body start) ways →
      Returns chars (.ways (.repetition body .zeroOrOne greedy) start)
        (start :: ways)
  | zeroOrMore
      {body : Node}
      {greedy : Bool}
      {start : Progress}
      {ways : List Progress} :
      Returns chars (.loop body [(start, true)] []) ways →
      Returns chars (.ways (.repetition body .zeroOrMore greedy) start) ways
  | oneOrMore
      {body : Node}
      {greedy : Bool}
      {start : Progress}
      {first ways : List Progress} :
      Returns chars (.ways body start) first →
      Returns chars (.loop body (flagged start first).reverse []) ways →
      Returns chars (.ways (.repetition body .oneOrMore greedy) start) ways
  | group
      {index : Nat}
      {body : Node}
      {start : Progress}
      {ways : List Progress} :
      Returns chars (.preferred body start) ways →
      Returns chars (.ways (.group index body) start)
        (ways.map (·.closeGroup index start.offset))
  | backref
      {index : Nat}
      {span : Span}
      {start : Progress} :
      start.captures.span? index = some span →
      Returns chars (.ways (.backref index) start) (start.copy chars span)
  | backrefUnset
      {index : Nat}
      {start : Progress} :
      start.captures.span? index = none →
      Returns chars (.ways (.backref index) start) []
  | preferred
      {node : Node}
      {start : Progress}
      {ways : List Progress} :
      Returns chars (.ways node start) ways →
      Returns chars (.preferred node start) (prefer node ways)
  | noItems
      {start : Progress} :
      Returns chars (.items [] start) [start]
  | moreItems
      {item : Node}
      {rest : List Node}
      {start : Progress}
      {first : List Progress}
      {waysFrom : Progress → List Progress} :
      Returns chars (.preferred item start) first →
      (∀ middle ∈ first,
        Returns chars (.items rest middle) (waysFrom middle)) →
      Returns chars (.items (item :: rest) start) (first.flatMap waysFrom)
  /-- The loop ends when its stack is empty, and in no other way. -/
  | emptied
      {body : Node}
      {done : List Progress} :
      Returns chars (.loop body [] done) done
  | popped
      {body : Node}
      {stack : List Unroll.Pending}
      {done ways : List Progress}
      {current : Progress} :
      Returns chars (.loop body stack (done ++ [current])) ways →
      Returns chars (.loop body (stack ++ [(current, false)]) done) ways
  | expanded
      {body : Node}
      {stack : List Unroll.Pending}
      {done next ways : List Progress}
      {current : Progress} :
      Returns chars (.ways body current) next →
      Returns chars
        (.loop body (stack ++ (flagged current next).reverse)
          (done ++ [current]))
        ways →
      Returns chars (.loop body (stack ++ [(current, true)]) done) ways

namespace Request

/-- Whatever the request begins from lies inside the line. -/
def Inside (chars : Line) : Request → Prop
  | .ways _ start | .preferred _ start | .items _ start => start.Inside chars
  | .loop _ stack _ => ∀ pending ∈ stack, pending.1.Inside chars

/-- What the functions compute for a request. -/
def answer (chars : Line) : Request → List Progress
  | .ways node start => possibilities chars node start
  | .preferred node start => orderedPossibilities chars node start
  | .items nodes start => sequence chars nodes start
  | .loop body stack done =>
      Unroll.drain chars.size (possibilities chars body)
        stack.reverse done.reverse

end Request

variable {chars : Line} {start : Progress} {ways : List Progress}

theorem flagged_inside
    {node : Node}
    (inside : start.Inside chars) :
    ∀ pending ∈ flagged start (possibilities chars node start),
      pending.1.Inside chars := by
  intro pending member
  obtain ⟨way, listed, rfl⟩ := List.mem_map.mp member
  exact inside_of_mem_possibilities inside listed

/-- Nothing but what the functions compute is ever returned. -/
theorem Returns.eq_answer
    {request : Request}
    (returns : Returns chars request ways)
    (inside : request.Inside chars) :
    ways = request.answer chars := by
  induction returns with
  | single tested => exact (possibilities_of_test? tested).symm
  | @anchor place start =>
      cases place <;> simp [Request.answer, possibilities, Anchor.offset]
  | concat _ ofItems =>
      rw [ofItems inside]
      simp only [Request.answer, possibilities]
  | alternation _ ofBranches =>
      simp only [Request.answer, possibilities, choices_eq_flatMap]
      exact List.flatMap_congr fun branch among => ofBranches branch among inside
  | zeroOrOne _ ofBody =>
      rw [ofBody inside]
      simp only [Request.answer, possibilities]
  | @zeroOrMore body _ start _ _ ofLoop =>
      have entry : Request.Inside chars (.loop body [(start, true)] []) :=
        List.forall_mem_singleton.mpr inside
      rw [ofLoop entry]
      simp only [Request.answer, possibilities, Unroll.unroll]
      rfl
  | @oneOrMore body _ start first _ _ _ ofBody ofLoop =>
      obtain rfl := ofBody inside
      have entries :
          Request.Inside chars
            (.loop body (flagged start (possibilities chars body start)).reverse
              []) := by
        intro pending member
        exact flagged_inside inside pending (List.mem_reverse.mp member)
      rw [ofLoop entries]
      simp only [Request.answer, possibilities, Unroll.unroll,
        List.reverse_reverse, successors_eq_flagged inside]
      rfl
  | group _ ofBody =>
      rw [ofBody inside]
      simp only [Request.answer, possibilities, orderedPossibilities]
  | backref held => simp only [Request.answer, possibilities, held]
  | backrefUnset unset => simp only [Request.answer, possibilities, unset]
  | preferred _ ofNode =>
      rw [ofNode inside]
      rfl
  | noItems => simp only [Request.answer, sequence]
  | @moreItems item rest start first waysFrom _ _ ofItem ofRest =>
      obtain rfl := ofItem inside
      simp only [Request.answer, sequence]
      exact List.flatMap_congr fun middle among =>
        ofRest middle among
          (inside_of_mem_possibilities inside (mem_prefer.mp among))
  | emptied => simp [Request.answer, Unroll.drain]
  | popped _ ofLoop =>
      obtain ⟨below, -⟩ := List.forall_mem_append.mp inside
      rw [ofLoop below]
      simp [Request.answer, Unroll.drain]
  | @expanded body stack done next ways current _ _ ofBody ofLoop =>
      obtain ⟨below, top⟩ := List.forall_mem_append.mp inside
      have currentInside : current.Inside chars := top _ List.mem_cons_self
      obtain rfl := ofBody currentInside
      have entries :
          Request.Inside chars
            (.loop body
              (stack ++
                (flagged current (possibilities chars body current)).reverse)
              (done ++ [current])) := by
        refine List.forall_mem_append.mpr ⟨below, fun pending member => ?_⟩
        exact flagged_inside currentInside pending (List.mem_reverse.mp member)
      rw [ofLoop entries]
      simp [Request.answer, Unroll.drain, successors_eq_flagged currentInside]

/-- The loop returns when its body does.  Each round is one of the functions' own recursion. -/
theorem returns_loop
    {body : Node}
    (ofBody :
      ∀ start, start.Inside chars →
        Returns chars (.ways body start) (possibilities chars body start))
    (stack : List Unroll.Pending)
    (done : List Progress)
    (inside : ∀ pending ∈ stack, pending.1.Inside chars) :
    Returns chars (.loop body stack.reverse done.reverse)
      (Unroll.drain chars.size (possibilities chars body) stack done) := by
  induction stack, done using
      Unroll.drain.induct chars.size (possibilities chars body) with
  | case1 done =>
      rw [Unroll.drain]
      exact .emptied
  | case2 current stack done inductionHypothesis =>
      obtain ⟨-, below⟩ := List.forall_mem_cons.mp inside
      have later := inductionHypothesis below
      rw [List.reverse_cons] at later
      rw [Unroll.drain, List.reverse_cons]
      exact .popped later
  | case3 current stack done inductionHypothesis =>
      obtain ⟨currentInside, below⟩ := List.forall_mem_cons.mp inside
      rw [successors_eq_flagged currentInside] at inductionHypothesis
      have later :=
        inductionHypothesis
          (List.forall_mem_append.mpr ⟨flagged_inside currentInside, below⟩)
      rw [List.reverse_append, List.reverse_cons] at later
      rw [Unroll.drain, successors_eq_flagged currentInside,
        List.reverse_cons]
      exact .expanded (ofBody current currentInside) later

theorem returns_items
    {items : List Node}
    (ofItems :
      ∀ item ∈ items, ∀ start, start.Inside chars →
        Returns chars (.ways item start) (possibilities chars item start))
    (inside : start.Inside chars) :
    Returns chars (.items items start) (sequence chars items start) := by
  induction items generalizing start with
  | nil =>
      rw [sequence]
      exact .noItems
  | cons item rest inductionHypothesis =>
      obtain ⟨ofItem, ofRest⟩ := List.forall_mem_cons.mp ofItems
      rw [sequence]
      refine .moreItems (.preferred (ofItem start inside)) ?_
      intro middle among
      exact
        inductionHypothesis ofRest
          (inside_of_mem_possibilities inside (mem_prefer.mp among))

theorem returns_repetition
    {body : Node}
    (ofBody :
      ∀ start, start.Inside chars →
        Returns chars (.ways body start) (possibilities chars body start))
    (kind : RepeatKind)
    (greedy : Bool)
    (inside : start.Inside chars) :
    Returns chars (.ways (.repetition body kind greedy) start)
      (possibilities chars (.repetition body kind greedy) start) := by
  cases kind with
  | zeroOrOne =>
      rw [possibilities]
      exact .zeroOrOne (ofBody start inside)
  | zeroOrMore =>
      rw [possibilities]
      exact
        .zeroOrMore
          (returns_loop ofBody [(start, true)] []
            (List.forall_mem_singleton.mpr inside))
  | oneOrMore =>
      rw [possibilities, successors_eq_flagged inside]
      exact
        .oneOrMore (ofBody start inside)
          (returns_loop ofBody _ [] (flagged_inside inside))

/-- Inside the line every node's ways are returned. -/
theorem returns_ways
    (node : Node)
    (inside : start.Inside chars) :
    Returns chars (.ways node start) (possibilities chars node start) := by
  induction node using treeInduction generalizing start with
  | single node test tested =>
      rw [possibilities_of_test? tested]
      exact .single tested
  | anchor place =>
      cases place with
      | lineStart =>
          rw [possibilities]
          exact .anchor
      | lineEnd =>
          rw [possibilities]
          exact .anchor
  | concat items inductionHypothesis =>
      rw [possibilities]
      exact
        .concat
          (returns_items
            (fun item among start inside =>
              inductionHypothesis item among inside)
            inside)
  | alternation branches inductionHypothesis =>
      rw [possibilities, choices_eq_flatMap]
      exact
        .alternation fun branch among =>
          .preferred (inductionHypothesis branch among inside)
  | repetition body kind greedy inductionHypothesis =>
      exact
        returns_repetition (fun start inside => inductionHypothesis inside)
          kind greedy inside
  | group index body inductionHypothesis =>
      rw [possibilities]
      exact .group (.preferred (inductionHypothesis inside))
  | backref index =>
      rw [possibilities]
      split
      · next held => exact .backref held
      · next unset => exact .backrefUnset unset

/-- Every request from inside the line returns. -/
theorem returns_answer
    {request : Request}
    (inside : request.Inside chars) :
    Returns chars request (request.answer chars) := by
  cases request with
  | ways node start => exact returns_ways node inside
  | preferred node start => exact .preferred (returns_ways node inside)
  | items items start =>
      exact
        returns_items (fun item _ start inside => returns_ways item inside)
          inside
  | loop body stack done =>
      have entries : ∀ pending ∈ stack.reverse, pending.1.Inside chars :=
        fun pending member => inside pending (List.mem_reverse.mp member)
      have returns :=
        returns_loop (fun start inside => returns_ways body inside)
          stack.reverse done.reverse entries
      rwa [List.reverse_reverse, List.reverse_reverse] at returns

/-- Inside the line a request returns exactly one list, the one that is computed for it. -/
theorem returns_iff
    {request : Request}
    (inside : request.Inside chars) :
    Returns chars request ways ↔ ways = request.answer chars := by
  constructor
  · intro returns
    exact returns.eq_answer inside
  · rintro rfl
    exact returns_answer inside

/--
Matching terminates.  From any progress inside any line, the ways of any tree are
returned, in either order, as are those of a sequence of nodes and those of a
repetition unrolled from any seeds inside the line; and it is what the functions
compute that is returned, and nothing else.

This is so because no way goes back or leaves the line, so that an entry is
expanded only strictly behind the one it came from.
-/
theorem matching_terminates
    (chars : Line)
    (start : Progress)
    (inside : start.Inside chars) :
    (∀ node ways,
      Returns chars (.ways node start) ways ↔
        ways = possibilities chars node start) ∧
      (∀ node ways,
        Returns chars (.preferred node start) ways ↔
          ways = orderedPossibilities chars node start) ∧
      (∀ nodes ways,
        Returns chars (.items nodes start) ways ↔
          ways = sequence chars nodes start) ∧
      (∀ body seeds,
        (∀ seed ∈ seeds, seed.1.Inside chars) →
          ∀ ways,
            Returns chars (.loop body seeds.reverse []) ways ↔
              ways =
                Unroll.unroll chars.size (possibilities chars body) seeds) ∧
      (∀ node, ∀ way ∈ possibilities chars node start,
        start.offset ≤ way.offset ∧ way.Inside chars) ∧
      ∀ node entry,
        entry ∈ flagged start (possibilities chars node start) →
          (entry.2 = true ↔ start.offset < entry.1.offset) := by
  refine ⟨?_, ?_, ?_, ?_, ?_, ?_⟩
  · intro node ways
    exact returns_iff inside
  · intro node ways
    exact returns_iff inside
  · intro nodes ways
    exact returns_iff inside
  · intro body seeds seedsInside ways
    have entries : Request.Inside chars (.loop body seeds.reverse []) :=
      fun pending member => seedsInside pending (List.mem_reverse.mp member)
    rw [returns_iff entries, Request.answer, List.reverse_reverse]
    rfl
  · intro node way listed
    exact
      ⟨le_offset_of_mem_possibilities inside listed,
        inside_of_mem_possibilities inside listed⟩
  · intro node entry member
    obtain ⟨way, listed, rfl⟩ := List.mem_map.mp member
    have forward := le_offset_of_mem_possibilities inside listed
    rw [bne_iff_ne, Nat.lt_iff_le_and_ne]
    exact ⟨fun moved => ⟨forward, moved.symm⟩, fun further => further.2.symm⟩

/-- A repetition of a repetition whose body may consume nothing, in either order of greed. -/
theorem matching_terminates_on_nested_empty_repetitions :
    let body : Node := .alternation [.anchor .lineStart, .dot]
    let nested : Node :=
      .repetition (.repetition body .zeroOrMore true) .oneOrMore false
    let start : Progress := ⟨0, #[none]⟩
    start.Inside #['a'] ∧
      Returns #['a'] (.ways nested start)
        [⟨0, #[none]⟩, ⟨0, #[none]⟩, ⟨1, #[none]⟩, ⟨1, #[none]⟩] := by
  intro body nested start
  have inside : start.Inside #['a'] :=
    ⟨Nat.zero_le _, Captures.Inside.unset 0 1⟩
  have computed :
      [⟨0, #[none]⟩, ⟨0, #[none]⟩, ⟨1, #[none]⟩, ⟨1, #[none]⟩] =
        possibilities #['a'] nested start := by
    cbv
  exact ⟨inside, ((matching_terminates #['a'] start inside).1 nested _).mpr computed⟩

end LineSearch.Node
