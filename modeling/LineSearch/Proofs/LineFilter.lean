import LineSearch.Files.Build
import LineSearch.Proofs.DirectOutput
import LineSearch.Proofs.LineCuts
import Mathlib

namespace LineSearch

/-!
# Searching a source is filtering its lines

What is printed of a source is what its bytes mean line by line, less the lines
that the pattern does not match, each once and in order.
-/

namespace Settings

/-- How a line is shown that comes from a source with this label, or with none. -/
def shownLine
    (settings : Settings)
    (label? : Option String)
    (text : String) :
    String :=
  match label? with
  | some label =>
      if settings.printPaths then label ++ ":" ++ text ++ "\n" else text ++ "\n"
  | none => text ++ "\n"

end Settings

namespace Search

open Output

theorem bytes_line
    (search : Search)
    (label? : Option String)
    (text : String) :
    (Event.line (search.printedLabel? label?) text).bytes =
      Utf8.encode (search.settings.shownLine label? text) := by
  cases label? with
  | none =>
      simp [Event.bytes, linePieces, printedLabel?, Settings.shownLine,
        Utf8.encode_append]
  | some label =>
      by_cases shown : search.settings.printPaths = true <;>
        simp [Event.bytes, linePieces, printedLabel?, Settings.shownLine,
          shown, Utf8.encode_append]

/-- A source prints its matching lines and nothing else. -/
theorem printed_source
    (search : Search)
    (label? : Option String)
    (source : Source) :
    printed (search.events (.source label? source)) =
      (source.lines.filter search.pattern.isMatch).flatMap fun text =>
        Utf8.encode (search.settings.shownLine label? text) := by
  have broken :
      printed
          (source.failure?.map fun reason =>
            Event.record (stoppedReading label? reason)).toList =
        [] := by
    cases source.failure? <;> rfl
  rw [events, sourceEvents, printed_append, broken, List.append_nil, printed,
    List.flatMap_map]
  simp only [bytes_line]

/-- Something is printed of a source when one of its lines matches. -/
theorem printed_source_ne_nil_iff
    (search : Search)
    (label? : Option String)
    (source : Source) :
    printed (search.events (.source label? source)) ≠ [] ↔
      ∃ text ∈ source.lines, search.pattern.isMatch text = true := by
  have shown (text : String) :
      Utf8.encode (search.settings.shownLine label? text) ≠ [] := by
    rw [← bytes_line]
    exact bytes_line_ne_nil _ _
  simp [printed_source, shown]

/--
A source whose lines mean these texts, searched with an output that takes
everything: the matching texts are printed, in order and once each, and something
is found when one of them matches, that is when something is printed.

The texts depend on the bytes alone, however these are cut into chunks, and on
whether the source broke off behind them.
-/
theorem source_prints_the_matching_lines
    (search : Search)
    (label? : Option String)
    (source : Source)
    {device : Device}
    (accepts : device.room? = none) :
    let brokeOff := source.failure?.isSome
    let delivery := search.perform (.direct device) (.source label? source)
    ∃ texts,
      (∀ read,
        Lines.Reads source.chunks.flatten brokeOff read ↔ read = texts) ∧
        ∃ written,
          written =
              ((texts.filter search.pattern.isMatch).flatMap fun text =>
                Utf8.encode (search.settings.shownLine label? text)) ∧
            delivery.channel.device.taken.toList =
              device.taken.toList ++ written ∧
            delivery.failure? = none ∧
            (delivery.found = true ↔
              ∃ text ∈ texts, search.pattern.isMatch text = true) ∧
            (delivery.found = true ↔ written ≠ []) := by
  intro brokeOff delivery
  obtain ⟨succeeds, taken, -, found⟩ :=
    search.perform_unlimited accepts (.source label? source)
  have written := search.printed_source label? source
  refine
    ⟨source.lines, fun read => Lines.reads_iff.trans eq_comm, _, rfl, ?_,
      succeeds, ?_, ?_⟩
  · rw [← written]
    exact taken
  · exact found.trans (search.printed_source_ne_nil_iff label? source)
  · rw [← written]
    exact found

/--
Chunks that end inside a line and inside its ending, a byte that is no text, two
carriage returns, and a failure inside the last line.
-/
theorem source_prints_the_matching_lines_of_a_broken_source :
    let pattern : Pattern := ⟨.literal 'a', 0, false, "a"⟩
    let search : Search := ⟨pattern, ⟨false, true⟩, .bare []⟩
    let source : Source :=
      ⟨[[97, 13], [10, 98, 10, 255, 97], [13, 13, 10, 97]], some "lost"⟩
    let delivery := search.perform (.direct .unlimited) (.source (some "in") source)
    Device.unlimited.room? = none ∧
      (∀ read,
        Lines.Reads source.chunks.flatten true read ↔
          read = ["a", "b", "\uFFFDa\r"]) ∧
      delivery.channel.device.taken.toList =
        Utf8.encode "in:a\nin:\uFFFDa\r\n" ∧
      delivery.failure? = none ∧
      delivery.found = true := by
  intro pattern search source delivery
  have unlimited : Device.unlimited.room? = none := rfl
  obtain ⟨texts, reads, written, shown, taken, succeeds, found, -⟩ :=
    search.source_prints_the_matching_lines (some "in") source unlimited
  have known : ["a", "b", "\uFFFDa\r"] = texts :=
    (reads _).mp (Lines.reads_iff.mpr (by cbv))
  subst known
  refine ⟨unlimited, reads, ?_, succeeds, found.mpr ?_⟩
  · rw [taken, shown]
    cbv
  · exact ⟨"a", by decide, by cbv⟩

end Search

end LineSearch
