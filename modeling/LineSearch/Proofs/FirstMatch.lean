import LineSearch.Match.Outcome
import LineSearch.Proofs.WaysDerived

namespace LineSearch.Pattern

/-!
# The first match in a line

The search over the offsets of a line, and what it means once the ways of the
root are known to be the consumptions derived for it: a line is reported as
matched when something is derived at an offset that is tried, and then the
leftmost such offset is reported, with the text that each slot holds.
-/

/-- The progress at which matching from this offset begins. -/
def begin (pattern : Pattern) (offset : Nat) : Progress :=
  ⟨offset, Captures.unset pattern.groupCount⟩

theorem begin_inside
    (pattern : Pattern)
    {chars : Line}
    {offset : Nat}
    (bounded : offset ≤ pattern.lastStart chars) :
    (pattern.begin offset).Inside chars where
  offset_le := by
    unfold lastStart at bounded
    split at bounded
    · exact Nat.le_trans bounded (Nat.zero_le _)
    · exact bounded
  captures := Captures.Inside.unset _ _

/-- Any way will do for an offset to admit a match. -/
theorem matchAt?_eq_none_iff
    {pattern : Pattern}
    {chars : Line}
    {offset : Nat} :
    pattern.matchAt? chars offset = none ↔
      ∀ way, way ∉ pattern.root.possibilities chars (pattern.begin offset) := by
  rw [matchAt?, List.head?_eq_none_iff, Node.orderedPossibilities,
    List.eq_nil_iff_forall_not_mem]
  exact forall_congr' fun way => not_congr mem_prefer

/-- The preferred way is one of them. -/
theorem mem_of_matchAt?
    {pattern : Pattern}
    {chars : Line}
    {offset : Nat}
    {final : Progress}
    (preferred : pattern.matchAt? chars offset = some final) :
    final ∈ pattern.root.possibilities chars (pattern.begin offset) :=
  mem_prefer.mp (List.mem_of_head? preferred)

/-- Looking through a range of numbers finds what the least number that has something has. -/
private theorem findSome?_range_eq_some_iff
    {lookAt : Nat → Option β}
    {count : Nat}
    {value : β} :
    (List.range count).findSome? lookAt = some value ↔
      ∃ index, index < count ∧
        lookAt index = some value ∧
        ∀ earlier, earlier < index → lookAt earlier = none := by
  rw [List.range_eq_range', List.findSome?_eq_some_iff]
  constructor
  · rintro ⟨before, index, after, shape, here, nothing⟩
    obtain ⟨size, _, rfl, tail⟩ := List.range'_eq_append_iff.mp shape
    obtain ⟨isIndex, _, _⟩ := List.range'_eq_cons_iff.mp tail.symm
    obtain rfl : size = index := by omega
    refine ⟨size, by omega, here, fun earlier isEarlier => nothing earlier ?_⟩
    simpa using isEarlier
  · rintro ⟨index, bounded, here, nothing⟩
    refine
      ⟨List.range' 0 index, index,
        List.range' (index + 1) (count - index - 1), ?_, here, ?_⟩
    · rw [List.range'_eq_append_iff]
      refine ⟨index, by omega, rfl, ?_⟩
      rw [eq_comm, List.range'_eq_cons_iff]
      exact ⟨by omega, by omega, by congr 1⟩
    · simpa using nothing

/-- The search stops at the leftmost offset that admits a match. -/
theorem find?_eq_some_iff
    {pattern : Pattern}
    {chars : Line}
    {found : Found} :
    pattern.find? chars = some found ↔
      found.start ≤ pattern.lastStart chars ∧
        pattern.matchAt? chars found.start = some found.final ∧
        ∀ earlier, earlier < found.start →
          pattern.matchAt? chars earlier = none := by
  rcases found with ⟨start, final⟩
  simp only [find?, findSome?_range_eq_some_iff, Nat.lt_succ_iff,
    Option.map_eq_some_iff, Option.map_eq_none_iff]
  constructor
  · rintro ⟨offset, bounded, ⟨_, preferred, same⟩, nothing⟩
    cases same
    exact ⟨bounded, preferred, nothing⟩
  · rintro ⟨bounded, preferred, nothing⟩
    exact ⟨start, bounded, ⟨final, preferred, rfl⟩, nothing⟩

/-- The search fails when no offset that is tried admits a match. -/
theorem find?_eq_none_iff
    {pattern : Pattern}
    {chars : Line} :
    pattern.find? chars = none ↔
      ∀ offset, offset ≤ pattern.lastStart chars →
        pattern.matchAt? chars offset = none := by
  simp only [find?, List.findSome?_eq_none_iff, List.mem_range,
    Nat.lt_succ_iff, Option.map_eq_none_iff]

/-- A line's outcome is read off the match that was found. -/
theorem matchLine_of_find?
    {pattern : Pattern}
    {text : String}
    {found : Found}
    (isFound : pattern.find? (Line.ofText text) = some found) :
    pattern.matchLine text =
      {
        matched := true
        start := found.start
        stop := found.final.offset
        captures := capturedTexts (Line.ofText text) found.final.captures
      } := by
  rcases found with ⟨start, final⟩
  simp [matchLine, isFound]

/-- What is reported for a slot is the text of the stretch it holds. -/
theorem getElem?_capturedTexts
    (chars : Line)
    (captures : Captures)
    (index : Nat) :
    (capturedTexts chars captures)[index]? =
      captures[index]?.map fun slot => slot.elim "" (·.text chars) := by
  rw [capturedTexts, List.getElem?_map, Array.getElem?_toList]
  refine congrArg (Option.map · _) (funext fun slot => ?_)
  cases slot <;> rfl

/-- A stretch of a text ends before what is behind it and begins behind what is before it. -/
theorem span_text_ofText
    (span : Span)
    (text : String) :
    span.text (Line.ofText text) =
      String.ofList ((text.toList.take span.stop).drop span.start) := by
  rw [Span.text, Span.of, Line.ofText, Array.toList_extract,
    List.extract_eq_drop_take']

theorem isMatch_iff_find?
    {pattern : Pattern}
    {text : String} :
    pattern.isMatch text = true ↔
      ∃ found, pattern.find? (Line.ofText text) = some found := by
  rw [isMatch, Option.isSome_iff_exists]

/-- The outcome says whether there is a match. -/
theorem matched_eq_isMatch
    (pattern : Pattern)
    (text : String) :
    (pattern.matchLine text).matched = pattern.isMatch text := by
  simp only [matchLine, isMatch]
  cases pattern.find? (Line.ofText text) <;> rfl

/-- An offset that is tried admits no match when nothing is derived for the root there. -/
theorem matchAt?_eq_none_iff_not_matches
    {pattern : Pattern}
    {chars : Line}
    {offset : Nat}
    (tried : offset ≤ pattern.lastStart chars) :
    pattern.matchAt? chars offset = none ↔
      ∀ final,
        ¬ Node.Matches chars pattern.root (pattern.begin offset) final := by
  rw [matchAt?_eq_none_iff]
  exact forall_congr' fun final =>
    not_congr (Node.mem_possibilities_iff (pattern.begin_inside tried))

/-- A match that is found is derived for the root where it starts. -/
theorem matches_of_find?
    {pattern : Pattern}
    {chars : Line}
    {found : Found}
    (isFound : pattern.find? chars = some found) :
    Node.Matches chars pattern.root
      (pattern.begin found.start) found.final := by
  obtain ⟨tried, preferred, _⟩ := find?_eq_some_iff.mp isFound
  exact Node.matches_of_mem_possibilities pattern.root
    (pattern.begin_inside tried) (mem_of_matchAt? preferred)

/-- A line matches when something is derived for the root at an offset that is tried. -/
theorem isMatch_iff_matches
    {pattern : Pattern}
    {text : String} :
    pattern.isMatch text = true ↔
      ∃ offset final,
        offset ≤ pattern.lastStart (Line.ofText text) ∧
          Node.Matches (Line.ofText text) pattern.root
            (pattern.begin offset) final := by
  constructor
  · intro isMatch
    obtain ⟨found, isFound⟩ := isMatch_iff_find?.mp isMatch
    obtain ⟨tried, _, _⟩ := find?_eq_some_iff.mp isFound
    exact ⟨found.start, found.final, tried, matches_of_find? isFound⟩
  · rintro ⟨offset, final, tried, derived⟩
    rw [isMatch_iff_find?, ← Option.isSome_iff_exists,
      Option.isSome_iff_ne_none]
    intro nothing
    have none_here := find?_eq_none_iff.mp nothing offset tried
    exact (matchAt?_eq_none_iff_not_matches tried).mp
      none_here final derived

/--
Matching is sound and complete.  The ways of any node, from any progress inside
any line, are what is derived for it.  So a line is reported as matched exactly
when something is derived for the root at an offset that is tried; the reported
start is then the leftmost such offset, the reported end is that of a consumption
derived there, and the text of each slot is the stretch of the line that the slot
holds behind it.
-/
theorem matching_sound_and_complete
    (pattern : Pattern)
    (text : String) :
    (∀ chars node start stop,
      start.Inside chars →
        (stop ∈ Node.possibilities chars node start ↔
          Node.Matches chars node start stop)) ∧
      (pattern.matchLine text).matched = pattern.isMatch text ∧
      (pattern.isMatch text = true ↔
        ∃ offset final,
          offset ≤
              (if pattern.anchoredStart then 0
                else (Line.ofText text).size) ∧
            Node.Matches (Line.ofText text) pattern.root
              ⟨offset, Captures.unset pattern.groupCount⟩ final) ∧
      (pattern.isMatch text = true →
        ∃ start final,
          pattern.matchLine text =
              {
                matched := true
                start := start
                stop := final.offset
                captures :=
                  capturedTexts (Line.ofText text) final.captures
              } ∧
            Node.Matches (Line.ofText text) pattern.root
              ⟨start, Captures.unset pattern.groupCount⟩ final ∧
            (∀ earlier, earlier < start →
              ∀ other,
                ¬ Node.Matches (Line.ofText text) pattern.root
                  ⟨earlier, Captures.unset pattern.groupCount⟩ other) ∧
            ∀ index,
              (pattern.matchLine text).group? index =
                final.captures[index]?.map fun slot =>
                  slot.elim "" fun span =>
                    String.ofList
                      ((text.toList.take span.stop).drop span.start)) := by
  refine ⟨?_, matched_eq_isMatch pattern text, isMatch_iff_matches, ?_⟩
  · intro chars node start stop inside
    exact Node.mem_possibilities_iff inside
  · intro isMatch
    obtain ⟨found, isFound⟩ := isMatch_iff_find?.mp isMatch
    obtain ⟨tried, _, nothing⟩ := find?_eq_some_iff.mp isFound
    refine
      ⟨found.start, found.final, matchLine_of_find? isFound,
        matches_of_find? isFound, ?_, ?_⟩
    · intro earlier isEarlier
      have earlierTried :
          earlier ≤ pattern.lastStart (Line.ofText text) :=
        Nat.le_trans (Nat.le_of_lt isEarlier) tried
      exact (matchAt?_eq_none_iff_not_matches earlierTried).mp
        (nothing earlier isEarlier)
    · intro index
      rw [matchLine_of_find? isFound, Outcome.group?, getElem?_capturedTexts]
      simp only [span_text_ofText]

/-- A group and a back reference to it consume the same character twice. -/
theorem matching_sound_and_complete_doubled :
    let doubled : Node :=
      .concat [.group 1 (.alternation [.literal 'b', .dot]), .backref 1]
    let start : Progress := ⟨1, #[none, none]⟩
    let stop : Progress := ⟨3, #[none, some ⟨1, 2⟩]⟩
    start.Inside #['x', 'a', 'a'] ∧
      stop ∈ Node.possibilities #['x', 'a', 'a'] doubled start ∧
      Node.Matches #['x', 'a', 'a'] doubled start stop := by
  intro doubled start stop
  have inside : start.Inside #['x', 'a', 'a'] :=
    ⟨by decide, Captures.Inside.unset 1 3⟩
  have member :
      stop ∈ Node.possibilities #['x', 'a', 'a'] doubled start := by
    decide
  have derived :=
    (matching_sound_and_complete ⟨doubled, 1, false, ""⟩ "").1
      #['x', 'a', 'a'] doubled start stop inside
  exact ⟨inside, member, derived.mp member⟩

end LineSearch.Pattern
