import LineSearch.Log
import LineSearch.Pattern.Compile
import LineSearch.Pattern.Dump

namespace LineSearch.Pattern

/-!
# What is logged about a compiled pattern

A pattern is announced once it has been read whole; a text that denotes no
pattern is not.
-/

/-- The records for a pattern: its measures, and in full detail its tree. -/
def announcement (pattern : Pattern) : List Log.Record :=
  let shown := Quoted.text pattern.source
  [
    ⟨.debug, .patterns,
      s!"compiled {shown}: {pattern.groupCount} group(s), " ++
        s!"anchored_start={pattern.anchoredStart}"⟩,
    ⟨.trace, .patterns, s!"ast for {shown}: {pattern.root.dump}"⟩
  ]

end LineSearch.Pattern
