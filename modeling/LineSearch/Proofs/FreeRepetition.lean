import LineSearch.Proofs.FirstMatch

namespace LineSearch

/-!
# Empty occurrences may be cut off

The search does not go on behind an occurrence that consumed nothing.  Such an
occurrence may all the same have overwritten slots, with empty stretches, so
leaving it out gives a different progress.  The offsets that can be reached stay
the same for two reasons:

* an occurrence that consumes nothing can only take texts away from the slots;
* whatever can be consumed with fewer texts in the slots can be consumed with
  more, and then more are left.

So every chain of occurrences can be followed from slots that hold at least as
many texts, with its empty occurrences left out.
-/

namespace Captures

/--
Every text that the first slots hold is held by the second ones, at the same
place.  An empty stretch counts as no text: nothing can refer back to it.
-/
def HeldBy (fewer more : Captures) : Prop :=
  ∀ index span,
    fewer.span? index = some span →
    span.start < span.stop →
    more.span? index = some span

namespace HeldBy

theorem refl (captures : Captures) :
    captures.HeldBy captures :=
  fun _ _ held _ => held

theorem trans
    {first second third : Captures}
    (lower : first.HeldBy second)
    (upper : second.HeldBy third) :
    first.HeldBy third :=
  fun index span held nonempty =>
    upper index span (lower index span held nonempty) nonempty

/-- Recording the same stretch on both sides keeps them related. -/
theorem record
    {fewer more : Captures}
    (holds : fewer.HeldBy more)
    (index : Nat)
    (span : Span) :
    (fewer.record index span).HeldBy (more.record index span) := by
  intro query found held nonempty
  rw [span?_record] at held ⊢
  split at held
  · next same => rw [if_pos same, held]
  · next different =>
      rw [if_neg different]
      exact holds query found held nonempty

/-- Recording an empty stretch adds no text. -/
theorem record_of_empty
    {fewer more : Captures}
    (holds : fewer.HeldBy more)
    (index : Nat)
    {span : Span}
    (empty : span.stop ≤ span.start) :
    (fewer.record index span).HeldBy more := by
  intro query found held nonempty
  rw [span?_record] at held
  split at held
  · cases held
    exact (Nat.not_lt_of_le empty nonempty).elim
  · exact holds query found held nonempty

end HeldBy

end Captures

namespace Node.Consumes

variable
  {chars : Line}
  {goesOn : Progress → Progress → Prop}
  {node : Node}
  {start stop : Progress}

/-- What is done without consuming anything can only take texts away from the slots. -/
theorem heldBy_of_same_offset
    (consumes : Consumes chars goesOn node start stop)
    (same : stop.offset = start.offset) :
    stop.captures.HeldBy start.captures := by
  induction consumes with
  | single => exact (Nat.succ_ne_self _ same).elim
  | anchor | concatNil | noOccurrence => exact .refl _
  | concatCons first rest ofItem ofRest =>
      have afterFirst := first.forward
      have afterRest := rest.forward
      exact (ofRest (by omega)).trans (ofItem (by omega))
  | branch _ _ ofBranch => exact ofBranch same
  | oneOccurrence _ ofBody => exact ofBody same
  | furtherOccurrences _ first _ rest ofFirst ofRest =>
      have afterFirst := first.forward
      have afterRest := rest.forward
      exact (ofRest (by omega)).trans (ofFirst (by omega))
  | group _ ofBody =>
      exact (ofBody same).record_of_empty _ (Nat.le_of_eq same)
  | backref => exact .refl _

/-- Any number of occurrences are none, or at least one. -/
theorem eq_or_oneOrMore
    {body : Node}
    {greedy : Bool}
    (consumes :
      Consumes chars goesOn
        (.repetition body .zeroOrMore greedy) start stop) :
    stop = start ∨
      Consumes chars goesOn
        (.repetition body .oneOrMore greedy) start stop := by
  cases consumes with
  | single _ admitted => exact admitted.elim
  | noOccurrence => exact Or.inl rfl
  | oneOccurrence first => exact Or.inr (.oneOccurrence first)
  | furtherOccurrences _ first goes rest =>
      exact Or.inr
        (.furtherOccurrences RepeatKind.noConfusion first goes rest)

/--
The occurrences behind an empty one can be followed from where it began, since
it left no text that was not there before; and if there are none of them, the
empty occurrence stands alone.
-/
private theorem skip_empty_occurrence
    {body : Node}
    {kind : RepeatKind}
    {greedy : Bool}
    {offset : Nat}
    {more after reached : Captures}
    (allowed : kind ≠ .zeroOrOne)
    (first : Matches chars body ⟨offset, more⟩ ⟨offset, after⟩)
    (rest :
      Matches chars (.repetition body .zeroOrMore greedy)
        ⟨offset, more⟩ ⟨stop.offset, reached⟩)
    (heldAfter : stop.offset = offset → stop.captures.HeldBy after)
    (heldReached : stop.captures.HeldBy reached) :
    ∃ left,
      Matches chars (.repetition body kind greedy)
          ⟨offset, more⟩ ⟨stop.offset, left⟩ ∧
        stop.captures.HeldBy left := by
  cases kind with
  | zeroOrOne => exact (allowed rfl).elim
  | zeroOrMore => exact ⟨reached, rest, heldReached⟩
  | oneOrMore =>
      rcases rest.eq_or_oneOrMore with none | some
      · obtain ⟨sameOffset, rfl⟩ := Progress.mk.inj none
        rw [sameOffset]
        exact ⟨after, .oneOccurrence first, heldAfter sameOffset⟩
      · exact ⟨reached, some, heldReached⟩

/--
What is consumed by going on freely can be consumed by going on only behind
occurrences that moved, from any slots that hold as many texts, and leaves slots
that hold as many.
-/
theorem matches_of_heldBy
    {more : Captures}
    (free : MatchesFreely chars node start stop)
    (held : start.captures.HeldBy more) :
    ∃ left,
      Matches chars node ⟨start.offset, more⟩ ⟨stop.offset, left⟩ ∧
        stop.captures.HeldBy left := by
  induction free generalizing more with
  | single present admitted =>
      exact ⟨more, .single present admitted, held⟩
  | anchor here => exact ⟨more, .anchor here, held⟩
  | concatNil => exact ⟨more, .concatNil, held⟩
  | concatCons _ _ ofItem ofRest =>
      obtain ⟨middle, first, heldMiddle⟩ := ofItem held
      obtain ⟨left, rest, heldLeft⟩ := ofRest heldMiddle
      exact ⟨left, .concatCons first rest, heldLeft⟩
  | branch member _ ofBranch =>
      obtain ⟨left, taken, heldLeft⟩ := ofBranch held
      exact ⟨left, .branch member taken, heldLeft⟩
  | noOccurrence allowed => exact ⟨more, .noOccurrence allowed, held⟩
  | oneOccurrence _ ofBody =>
      obtain ⟨left, first, heldLeft⟩ := ofBody held
      exact ⟨left, .oneOccurrence first, heldLeft⟩
  | @furtherOccurrences body kind greedy start middle stop
      allowed _ _ others ofFirst ofRest =>
      obtain ⟨after, first, heldAfter⟩ := ofFirst held
      by_cases moved : middle.offset = start.offset
      · rw [moved] at first
        have heldBefore : after.HeldBy more :=
          first.heldBy_of_same_offset rfl
        obtain ⟨reached, rest, heldReached⟩ :=
          ofRest (heldAfter.trans heldBefore)
        rw [moved] at rest
        refine skip_empty_occurrence allowed first rest ?_ heldReached
        intro same
        exact (others.heldBy_of_same_offset (same.trans moved.symm)).trans
          heldAfter
      · obtain ⟨left, rest, heldLeft⟩ := ofRest heldAfter
        exact ⟨left, .furtherOccurrences allowed first moved rest, heldLeft⟩
  | @group index body start stop _ ofBody =>
      obtain ⟨left, inner, heldLeft⟩ := ofBody held
      have closed :=
        @group chars Moved index body
          ⟨start.offset, more⟩ ⟨stop.offset, left⟩ inner
      exact ⟨_, closed, heldLeft.record _ _⟩
  | backref found nonempty isStop bounded same =>
      have foundMore := held _ _ found nonempty
      exact ⟨more,
        .backref foundMore nonempty isStop bounded same, held⟩

/-- Where a node can end does not depend on whether empty occurrences are followed. -/
theorem exists_matches_iff_exists_matchesFreely
    {offset : Nat} :
    (∃ captures, Matches chars node start ⟨offset, captures⟩) ↔
      ∃ captures, MatchesFreely chars node start ⟨offset, captures⟩ := by
  constructor
  · rintro ⟨captures, derived⟩
    exact ⟨captures, derived.mono fun _ _ _ => trivial⟩
  · rintro ⟨captures, free⟩
    obtain ⟨left, derived, _⟩ := free.matches_of_heldBy (.refl _)
    exact ⟨left, derived⟩

/-- So neither does whether it can be matched at all. -/
theorem exists_matches_iff_exists_free :
    (∃ final, Matches chars node start final) ↔
      ∃ final, MatchesFreely chars node start final := by
  constructor
  · rintro ⟨final, derived⟩
    exact ⟨final, derived.mono fun _ _ _ => trivial⟩
  · rintro ⟨⟨offset, captures⟩, free⟩
    obtain ⟨left, derived⟩ :=
      exists_matches_iff_exists_matchesFreely.mpr ⟨captures, free⟩
    exact ⟨⟨offset, left⟩, derived⟩

end Node.Consumes

namespace Pattern

/--
Cutting off occurrences that consume nothing loses no match.  The offsets at
which the ways of a node end are those it can reach when every repetition in the
tree may go on behind any occurrence, from whatever the slots then hold.  So a
line matches, and its match starts, where it would under that free repetition.
-/
theorem ends_eq_ends_of_free_repetition
    (pattern : Pattern)
    (text : String) :
    (∀ chars node start,
      start.Inside chars →
        ∀ offset,
          (∃ way ∈ Node.possibilities chars node start,
            way.offset = offset) ↔
            ∃ final, Node.MatchesFreely chars node start final ∧
              final.offset = offset) ∧
      (pattern.isMatch text = true ↔
        ∃ offset final,
          offset ≤
              (if pattern.anchoredStart then 0
                else (Line.ofText text).size) ∧
            Node.MatchesFreely (Line.ofText text) pattern.root
              ⟨offset, Captures.unset pattern.groupCount⟩ final) ∧
      (pattern.isMatch text = true →
        (∃ final,
          Node.MatchesFreely (Line.ofText text) pattern.root
            ⟨(pattern.matchLine text).start,
              Captures.unset pattern.groupCount⟩ final) ∧
          ∀ earlier, earlier < (pattern.matchLine text).start →
            ∀ final,
              ¬ Node.MatchesFreely (Line.ofText text) pattern.root
                ⟨earlier, Captures.unset pattern.groupCount⟩ final) := by
  refine ⟨?_, ?_, ?_⟩
  · intro chars node start inside offset
    have ends := @Node.Consumes.exists_matches_iff_exists_matchesFreely
      chars node start offset
    constructor
    · rintro ⟨⟨_, captures⟩, member, rfl⟩
      have derived := (Node.mem_possibilities_iff inside).mp member
      obtain ⟨left, free⟩ := ends.mp ⟨captures, derived⟩
      exact ⟨_, free, rfl⟩
    · rintro ⟨⟨_, captures⟩, free, rfl⟩
      obtain ⟨left, derived⟩ := ends.mpr ⟨captures, free⟩
      exact ⟨_, (Node.mem_possibilities_iff inside).mpr derived, rfl⟩
  · rw [isMatch_iff_matches]
    refine exists_congr fun offset => ?_
    simp only [exists_and_left]
    exact and_congr_right fun _ =>
      Node.Consumes.exists_matches_iff_exists_free
  · intro isMatch
    obtain ⟨found, isFound⟩ := isMatch_iff_find?.mp isMatch
    obtain ⟨tried, _, nothing⟩ := find?_eq_some_iff.mp isFound
    rw [matchLine_of_find? isFound]
    refine
      ⟨Node.Consumes.exists_matches_iff_exists_free.mp
        ⟨found.final, matches_of_find? isFound⟩, ?_⟩
    intro earlier isEarlier final free
    have earlierTried :
        earlier ≤ pattern.lastStart (Line.ofText text) :=
      Nat.le_trans (Nat.le_of_lt isEarlier) tried
    obtain ⟨other, derived⟩ :=
      Node.Consumes.exists_matches_iff_exists_free.mpr ⟨final, free⟩
    exact (matchAt?_eq_none_iff_not_matches earlierTried).mp
      (nothing earlier isEarlier) other derived

/-- An occurrence behind an empty one, which the search does not follow, ends where a way does. -/
theorem ends_eq_ends_of_free_repetition_behind_empty :
    let optional : Node := .repetition (.literal 'a') .zeroOrOne true
    let repeated : Node := .repetition (.group 1 optional) .zeroOrMore true
    let start : Progress := ⟨0, #[none, none]⟩
    let final : Progress := ⟨1, #[none, some ⟨0, 1⟩]⟩
    start.Inside #['a'] ∧
      Node.MatchesFreely #['a'] repeated start final ∧
      ∃ way ∈ Node.possibilities #['a'] repeated start,
        way.offset = 1 := by
  intro optional repeated start final
  have inside : start.Inside #['a'] :=
    ⟨by decide, Captures.Inside.unset 1 1⟩
  have emptyFirst :
      Node.MatchesFreely #['a'] (.group 1 optional) start
        ⟨0, #[none, some ⟨0, 0⟩]⟩ :=
    .group (.noOccurrence (by decide))
  have admitted : Node.Admits (.literal 'a') 'a' := rfl
  have second :
      Node.MatchesFreely #['a'] (.group 1 optional)
        ⟨0, #[none, some ⟨0, 0⟩]⟩ final :=
    .group (.oneOccurrence (.single rfl admitted))
  have free : Node.MatchesFreely #['a'] repeated start final :=
    .furtherOccurrences (by decide) emptyFirst trivial
      (.oneOccurrence second)
  have ends :=
    (ends_eq_ends_of_free_repetition ⟨repeated, 1, false, ""⟩ "").1
      #['a'] repeated start inside 1
  exact ⟨inside, free, ends.mpr ⟨final, free, rfl⟩⟩

end Pattern

end LineSearch
