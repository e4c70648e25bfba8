import LineSearch.Proofs.Consumption

namespace LineSearch.Node

/-!
# The ways of a node are the consumptions derived for it

Both directions need the line: an occurrence that moved inside the line advances
as the search measures it, and a stretch inside the line has as many characters
as its offsets say.
-/

variable {chars : Line} {start stop : Progress}

/-- Whatever is derived for a node is among its ways. -/
theorem Consumes.mem_possibilities
    {node : Node}
    (derived : Matches chars node start stop)
    (inside : start.Inside chars) :
    stop ∈ possibilities chars node start := by
  induction derived with
  | single present admitted =>
      obtain ⟨test, tested, passes⟩ := admits_iff_test?.mp admitted
      rw [possibilities_of_test? tested]
      exact Progress.mem_consume.mpr ⟨_, present, passes, rfl⟩
  | anchor here => exact mem_anchor.mpr ⟨here, rfl⟩
  | concatNil => exact mem_concat_nil.mpr rfl
  | concatCons first _ ofItem ofRest =>
      exact mem_concat_cons.mpr
        ⟨_, ofItem inside, ofRest (first.inside inside)⟩
  | branch member _ ofBranch =>
      exact mem_alternation.mpr ⟨_, member, ofBranch inside⟩
  | noOccurrence allowed =>
      exact mem_repetition.mpr (Or.inl ⟨allowed, rfl⟩)
  | oneOccurrence _ ofBody =>
      exact mem_repetition.mpr
        (Or.inr ⟨_, ofBody inside, Or.inl rfl⟩)
  | @furtherOccurrences _ _ _ start middle stop
      allowed first moved _ ofFirst ofRest =>
      have middleInside := first.inside inside
      have advanced :
          Unroll.advances chars.size start middle = true := by
        rw [Unroll.advances_eq_ne first.forward middleInside.offset_le]
        exact bne_iff_ne.mpr moved
      exact mem_repetition.mpr
        (Or.inr ⟨middle, ofFirst inside,
          Or.inr ⟨allowed, advanced, ofRest middleInside⟩⟩)
  | group _ ofBody =>
      exact mem_group.mpr ⟨_, ofBody inside, rfl⟩
  | @backref _ span start stop held nonempty isStop _ same =>
      subst isStop
      have length : span.length ≠ 0 := by
        simp only [Span.length]
        omega
      exact mem_backref.mpr
        ⟨span, held, Progress.mem_copy.mpr ⟨length, same, rfl⟩⟩

/-- A concatenation's ways are derived when its items' are. -/
private theorem matches_of_mem_concat
    {items : List Node}
    (sound :
      ∀ item, item ∈ items → ∀ {start stop : Progress},
        start.Inside chars →
        stop ∈ possibilities chars item start →
        Matches chars item start stop)
    (inside : start.Inside chars)
    (member : stop ∈ possibilities chars (.concat items) start) :
    Matches chars (.concat items) start stop := by
  induction items generalizing start with
  | nil =>
      obtain rfl := mem_concat_nil.mp member
      exact .concatNil
  | cons item rest inductionHypothesis =>
      obtain ⟨middle, ofItem, ofRest⟩ := mem_concat_cons.mp member
      have first := sound item (by simp) inside ofItem
      have others :=
        inductionHypothesis
          (fun later among => sound later (by simp [among]))
          (first.inside inside) ofRest
      exact .concatCons first others

/--
A repetition's ways are derived when its body's are.  The induction is on what
is left of the line, since an occurrence is followed only when it advances.
-/
private theorem matches_of_mem_repetition
    {body : Node}
    {kind : RepeatKind}
    {greedy : Bool}
    (sound :
      ∀ {start stop : Progress},
        start.Inside chars →
        stop ∈ possibilities chars body start →
        Matches chars body start stop)
    (inside : start.Inside chars)
    (member :
      stop ∈ possibilities chars (.repetition body kind greedy) start) :
    Matches chars (.repetition body kind greedy) start stop := by
  induction start using Unroll.walk.induct chars.size generalizing kind with
  | case1 start inductionHypothesis =>
      rcases mem_repetition.mp member with
        ⟨allowed, rfl⟩ | ⟨next, ofBody, rfl | ⟨allowed, advanced, ofRest⟩⟩
      · exact .noOccurrence allowed
      · exact .oneOccurrence (sound inside ofBody)
      · have first := sound inside ofBody
        have nextInside := first.inside inside
        have moved : Moved start next := by
          rw [Unroll.advances_eq_ne first.forward nextInside.offset_le]
            at advanced
          exact bne_iff_ne.mp advanced
        have others :=
          inductionHypothesis next advanced nextInside ofRest
        exact .furtherOccurrences allowed first moved others

/-- A back reference's ways are derived. -/
private theorem matches_of_mem_backref
    {index : Nat}
    (inside : start.Inside chars)
    (member : stop ∈ possibilities chars (.backref index) start) :
    Matches chars (.backref index) start stop := by
  obtain ⟨span, held, copied⟩ := mem_backref.mp member
  obtain ⟨length, same, rfl⟩ := Progress.mem_copy.mp copied
  obtain ⟨ordered, bounded⟩ := inside.captures index span held
  have offset_le := inside.offset_le
  -- The copied text is as long as the stretch, so it does not end behind the line.
  have sizes := congrArg Array.size same
  simp only [Span.of, Array.size_extract, Span.length] at sizes length
  refine .backref held (by omega) rfl ?_ same
  simp only [Span.length]
  omega

/-- Every way of a node is derived for it. -/
theorem matches_of_mem_possibilities
    (node : Node)
    (inside : start.Inside chars)
    (member : stop ∈ possibilities chars node start) :
    Matches chars node start stop := by
  induction node using treeInduction generalizing start stop with
  | single node test tested =>
      rw [possibilities_of_test? tested] at member
      obtain ⟨char, present, passes, rfl⟩ := Progress.mem_consume.mp member
      exact .single present (admits_iff_test?.mpr ⟨test, tested, passes⟩)
  | anchor place =>
      obtain ⟨here, rfl⟩ := mem_anchor.mp member
      exact .anchor here
  | concat items inductionHypothesis =>
      exact matches_of_mem_concat inductionHypothesis inside member
  | alternation branches inductionHypothesis =>
      obtain ⟨branch, among, ofBranch⟩ := mem_alternation.mp member
      exact .branch among (inductionHypothesis branch among inside ofBranch)
  | repetition body kind greedy inductionHypothesis =>
      exact matches_of_mem_repetition inductionHypothesis inside member
  | group index body inductionHypothesis =>
      obtain ⟨inner, ofBody, rfl⟩ := mem_group.mp member
      exact .group (inductionHypothesis inside ofBody)
  | backref index => exact matches_of_mem_backref inside member

/-- The ways of a node are what is derived for it. -/
theorem mem_possibilities_iff
    {node : Node}
    (inside : start.Inside chars) :
    stop ∈ possibilities chars node start ↔
      Matches chars node start stop :=
  ⟨matches_of_mem_possibilities node inside,
    fun derived => derived.mem_possibilities inside⟩

/-- No way of a node leaves the line. -/
theorem inside_of_mem_possibilities
    {node : Node}
    {way : Progress}
    (inside : start.Inside chars)
    (member : way ∈ possibilities chars node start) :
    way.Inside chars :=
  (matches_of_mem_possibilities node inside member).inside inside

/-- No way of a node goes back. -/
theorem le_offset_of_mem_possibilities
    {node : Node}
    {way : Progress}
    (inside : start.Inside chars)
    (member : way ∈ possibilities chars node start) :
    start.offset ≤ way.offset :=
  (matches_of_mem_possibilities node inside member).forward

end LineSearch.Node
