import LineSearch.Proofs.DecodedLines

namespace LineSearch

/-!
# Searching what a search has printed

Lines that were printed can be searched in their turn.  They are read back as
they were printed, except that one carriage return at the end of a line now
counts as part of its ending.  Where no line has one left, a second search sees
exactly what the first one let through, and the order of the two does not
matter.
-/

namespace Lines

/-- No line of these bytes ends with a carriage return once its ending is taken off. -/
def EndsPlainly (bytes : List UInt8) (brokeOff : Bool) : Prop :=
  ∀ finished unfinished,
    Cut bytes finished unfinished →
      ∀ line ∈ kept brokeOff finished unfinished,
        (withoutEnding line).getLast? ≠ some carriageReturn

/-- The bytes of these lines, one after the other, each with a newline. -/
def written (lines : List String) : List UInt8 :=
  lines.flatMap fun text => Utf8.encode (text ++ "\n")

/-- A text without one carriage return at its end, as a line of that text is read. -/
def dropReturnOf (text : String) : String :=
  String.ofList (dropReturn text.toList)

theorem dropReturnOf_of_plain
    {text : String}
    (plain : text.toList.getLast? ≠ some '\r') :
    dropReturnOf text = text := by
  rw [dropReturnOf, dropReturn, if_neg plain, String.ofList_toList]

/-- What a printed line is read back as. -/
theorem decode_withoutEnding_encode (text : String) :
    Utf8.decode (withoutEnding (Utf8.encode (text ++ "\n"))) =
      dropReturnOf text := by
  have shape : Utf8.encode (text ++ "\n") = Utf8.encode text ++ [newline] :=
    Utf8.encode_append text "\n"
  apply String.toList_injective
  rw [shape, withoutEnding_finished, toList_decode_dropCarriageReturn,
    Utf8.decode_encode, dropReturnOf, String.toList_ofList]

/--
Lines that were printed are read back in order and once each, in whatever chunks
their bytes arrive, and even if the stream breaks off behind the last of them.
-/
theorem texts_of_written
    {lines : List String}
    {chunks : List (List UInt8)}
    (brokeOff : Bool)
    (free : ∀ text ∈ lines, '\n' ∉ text.toList)
    (same : chunks.flatten = written lines) :
    texts chunks brokeOff = lines.map dropReturnOf := by
  obtain ⟨finished, unfinished, cut, read⟩ := ofChunks_cut chunks brokeOff
  have asPrinted :
      Cut chunks.flatten
        (lines.map fun text => Utf8.encode (text ++ "\n")) [] :=
    same ▸ cut_texts free
  obtain ⟨rfl, rfl⟩ := cut.unique asPrinted
  rw [texts, read, kept, if_pos (Or.inr rfl), List.append_nil]
  simp only [List.map_map]
  exact List.map_congr_left fun text _ => decode_withoutEnding_encode text

/-- The texts of lines that end plainly do not end with a carriage return either. -/
theorem EndsPlainly.getLast?_ne
    {chunks : List (List UInt8)}
    {brokeOff : Bool}
    (plain : EndsPlainly chunks.flatten brokeOff)
    {text : String}
    (member : text ∈ texts chunks brokeOff) :
    text.toList.getLast? ≠ some '\r' := by
  obtain ⟨finished, unfinished, cut, read⟩ := ofChunks_cut chunks brokeOff
  rw [texts, read, List.map_map] at member
  obtain ⟨line, isLine, rfl⟩ := List.mem_map.mp member
  intro ends
  have small : carriageReturn.toNat < 0x80 := by
    decide
  exact
    plain finished unfinished cut line isLine
      ((Utf8.decodes_iff.mpr rfl).getLast?_bytes small ends)

/-- It is enough to look at the lines that are read. -/
theorem endsPlainly_of_ofChunks
    {chunks : List (List UInt8)}
    {brokeOff : Bool}
    (plain :
      ∀ line ∈ ofChunks chunks brokeOff,
        line.getLast? ≠ some carriageReturn) :
    EndsPlainly chunks.flatten brokeOff := by
  intro finished unfinished cut line isLine
  obtain ⟨otherFinished, otherUnfinished, otherCut, read⟩ :=
    ofChunks_cut chunks brokeOff
  obtain ⟨rfl, rfl⟩ := cut.unique otherCut
  apply plain
  rw [read]
  exact List.mem_map_of_mem isLine

end Lines

namespace Search

open Output

/--
Whenever the source is searched without a label being shown, with an output that
takes everything, these bytes are written, and this is whether anything was found.
-/
def Prints
    (search : Search)
    (source : Source)
    (bytes : List UInt8)
    (found : Bool) : Prop :=
  ∀ (device : Device) (label? : Option String),
    device.room? = none →
      search.printedLabel? label? = none →
        let delivery :=
          search.perform (.direct device) (.source label? source)
        delivery.failure? = none ∧
          delivery.channel.device.taken.toList =
            device.taken.toList ++ bytes ∧
          delivery.found = found

variable {search : Search} {source : Source}

/-- A search writes one thing and finds it or not. -/
theorem Prints.unique
    {bytes otherBytes : List UInt8}
    {found otherFound : Bool}
    (prints : search.Prints source bytes found)
    (other : search.Prints source otherBytes otherFound) :
    bytes = otherBytes ∧ found = otherFound := by
  obtain ⟨-, taken, isFound⟩ := prints .unlimited none rfl (by simp [printedLabel?])
  obtain ⟨-, otherTaken, isOtherFound⟩ :=
    other .unlimited none rfl (by simp [printedLabel?])
  exact
    ⟨List.append_cancel_left (taken.symm.trans otherTaken),
      isFound.symm.trans isOtherFound⟩

/-- Without a label the matching lines are written and nothing else. -/
theorem prints_matching (search : Search) (source : Source) :
    search.Prints source
      (Lines.written (source.lines.filter search.pattern.isMatch))
      (source.lines.any search.pattern.isMatch) := by
  intro device label? accepts unlabelled delivery
  obtain ⟨succeeds, taken, -, found⟩ :=
    search.perform_unlimited accepts (.source label? source)
  have shown (text : String) :
      search.settings.shownLine label? text = text ++ "\n" := by
    cases label? with
    | none => rfl
    | some label =>
        have noPaths : search.settings.printPaths = false := by
          simpa [printedLabel?] using unlabelled
        simp [Settings.shownLine, noPaths]
  have printed :
      Output.printed (search.events (.source label? source)) =
        Lines.written (source.lines.filter search.pattern.isMatch) := by
    simp only [printed_source, shown]
    rfl
  refine ⟨succeeds, printed ▸ taken, ?_⟩
  rw [Bool.eq_iff_iff, List.any_eq_true]
  exact found.trans (search.printed_source_ne_nil_iff label? source)

/--
What is written for the first search, searched again: the lines are those of the
source that match the first pattern.
-/
theorem lines_of_passed
    (first : Search)
    (plain :
      Lines.EndsPlainly source.chunks.flatten source.failure?.isSome)
    {again : Source}
    (same :
      again.chunks.flatten =
        Lines.written (source.lines.filter first.pattern.isMatch)) :
    again.lines = source.lines.filter first.pattern.isMatch := by
  have free (text : String)
      (member : text ∈ source.lines.filter first.pattern.isMatch) :
      '\n' ∉ text.toList :=
    Lines.newline_not_mem_of_mem_texts (List.mem_of_mem_filter member)
  have kept (text : String)
      (member : text ∈ source.lines.filter first.pattern.isMatch) :
      Lines.dropReturnOf text = text :=
    Lines.dropReturnOf_of_plain
      (plain.getLast?_ne (List.mem_of_mem_filter member))
  rw [Source.lines, Lines.texts_of_written _ free same]
  exact (List.map_congr_left kept).trans (List.map_id _)

/-- What the second search writes when it searches what was written for the first one. -/
theorem prints_both
    (first second : Search)
    (plain :
      Lines.EndsPlainly source.chunks.flatten source.failure?.isSome)
    {again : Source}
    (same :
      again.chunks.flatten =
        Lines.written (source.lines.filter first.pattern.isMatch)) :
    let both (text : String) : Bool :=
      first.pattern.isMatch text && second.pattern.isMatch text
    second.Prints again (Lines.written (source.lines.filter both))
      (source.lines.any both) := by
  intro both
  have prints := second.prints_matching again
  have ofBoth :
      (source.lines.filter first.pattern.isMatch).filter
          second.pattern.isMatch =
        source.lines.filter both := by
    rw [List.filter_filter]
    exact List.filter_congr fun text _ => Bool.and_comm _ _
  rwa [first.lines_of_passed plain same, ofBoth, List.any_filter] at prints

/--
Searches in a chain search for all their patterns.  No line of the source may
end with a carriage return once its ending is taken off.  Then what is written
for the first search, in whatever chunks it arrives at a second one, has exactly
those lines of the source written again, in order, that match both patterns, and
something is found when there is such a line.

So a search leaves what was written for it as it is, and of two searches either
one can go first.
-/
theorem chained_searches_intersect
    (first second : Search)
    {source : Source}
    (plain :
      Lines.EndsPlainly source.chunks.flatten source.failure?.isSome) :
    ∃ texts passed,
      (∀ read,
        Lines.Reads source.chunks.flatten source.failure?.isSome read ↔
          read = texts) ∧
        passed = Lines.written (texts.filter first.pattern.isMatch) ∧
        first.Prints source passed (texts.any first.pattern.isMatch) ∧
        ∀ again : Source,
          again.chunks.flatten = passed →
            let both (text : String) : Bool :=
              first.pattern.isMatch text && second.pattern.isMatch text
            second.Prints again (Lines.written (texts.filter both))
                (texts.any both) ∧
              first.Prints again passed
                (texts.any first.pattern.isMatch) ∧
              ∀ (otherPassed : List UInt8) (otherFound : Bool)
                (other : Source),
                second.Prints source otherPassed otherFound →
                  other.chunks.flatten = otherPassed →
                    ∀ bytes found,
                      second.Prints again bytes found ↔
                        first.Prints other bytes found := by
  refine
    ⟨source.lines, _, fun read => Lines.reads_iff.trans eq_comm, rfl,
      first.prints_matching source, fun again same => ?_⟩
  have intersection := prints_both first second plain same
  refine ⟨intersection, ?_, ?_⟩
  · have twice := prints_both first first plain same
    simpa only [Bool.and_self] using twice
  · intro otherPassed otherFound other otherPrints otherSame bytes found
    obtain ⟨rfl, -⟩ := otherPrints.unique (second.prints_matching source)
    have otherWay := prints_both second first plain otherSame
    simp only [Bool.and_comm (second.pattern.isMatch _)] at otherWay
    constructor
    · intro prints
      obtain ⟨rfl, rfl⟩ := prints.unique intersection
      exact otherWay
    · intro prints
      obtain ⟨rfl, rfl⟩ := prints.unique otherWay
      exact intersection

/-- Two kinds of line ends and a byte that is no text; the middle line matches only once. -/
theorem chained_searches_intersect_on_mixed_line_ends :
    let first : Search :=
      ⟨⟨.literal 'a', 0, false, "a"⟩, ⟨false, false⟩, .bare []⟩
    let second : Search :=
      ⟨⟨.literal 'b', 0, false, "b"⟩, ⟨true, true⟩, .bare []⟩
    let source : Source :=
      ⟨[[97, 98, 13], [10, 97, 10, 255], [98, 97]], none⟩
    let again : Source := .whole (Utf8.encode "ab\na\n\uFFFDba\n")
    Lines.EndsPlainly source.chunks.flatten source.failure?.isSome ∧
      first.Prints source again.chunks.flatten true ∧
      second.Prints again (Utf8.encode "ab\n\uFFFDba\n") true ∧
      first.Prints again again.chunks.flatten true := by
  intro first second source again
  have plain :
      Lines.EndsPlainly source.chunks.flatten source.failure?.isSome :=
    Lines.endsPlainly_of_ofChunks (by decide)
  obtain ⟨texts, passed, reads, isPassed, prints, chained⟩ :=
    chained_searches_intersect first second plain
  obtain rfl : ["ab", "a", "\uFFFDba"] = texts :=
    (reads _).mp (Lines.reads_iff.mpr (by cbv))
  obtain rfl : again.chunks.flatten = passed := isPassed.symm ▸ by cbv
  obtain ⟨intersection, idempotent, -⟩ := chained again rfl
  have found :
      ["ab", "a", "\uFFFDba"].any first.pattern.isMatch = true := by
    cbv
  have bothFound :
      (["ab", "a", "\uFFFDba"].any fun text =>
          first.pattern.isMatch text && second.pattern.isMatch text) =
        true := by
    cbv
  have bothWritten :
      (Lines.written
          (["ab", "a", "\uFFFDba"].filter fun text =>
            first.pattern.isMatch text && second.pattern.isMatch text)) =
        Utf8.encode "ab\n\uFFFDba\n" := by
    cbv
  rw [found] at prints idempotent
  rw [bothFound, bothWritten] at intersection
  exact ⟨plain, prints, intersection, idempotent⟩

end Search

end LineSearch
