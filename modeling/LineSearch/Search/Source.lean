import LineSearch.Files.Resolve
import LineSearch.Match.Outcome
import LineSearch.Output.Delivery
import LineSearch.Search.Records
import LineSearch.Text.Lines

namespace LineSearch

/-!
# Searching one source

A source is a stream of bytes that arrives in chunks, and comes to its end or
breaks off. Every line of it that the pattern matches is printed once, in order;
that it broke off is logged behind its last line.
-/

/-- How paths are searched and how lines are labelled. -/
structure Settings where
  /-- Directories are searched too. -/
  recursive : Bool
  /-- Lines are printed behind the path they come from. -/
  printPaths : Bool
  deriving Repr, DecidableEq

namespace Settings

/-- Paths are printed when there may be more than one of them. -/
def forPaths (recursive : Bool) (pathCount : Nat) : Settings :=
  { recursive := recursive, printPaths := recursive || decide (1 < pathCount) }

end Settings

/-- A stream of bytes, with the reason why it broke off if it did. -/
structure Source where
  chunks : List (List UInt8)
  failure? : Option String
  deriving Repr, DecidableEq

namespace Source

/-- A source that arrives at once and comes to its end. -/
def whole (bytes : List UInt8) : Source :=
  ⟨[bytes], none⟩

/-- The texts of the lines of a source. -/
def lines (source : Source) : List String :=
  Lines.texts source.chunks source.failure?.isSome

/-- What is read of a file, if it can be opened. -/
def ofContent : Files.Content → Except SystemError Source
  | .opens bytes failure? => .ok ⟨[bytes], failure?.map SystemError.message⟩
  | .refused reason => .error reason

/--
What is read at the end of a path, if it can be opened. A directory that can be
listed can be opened too, and only then cannot be read.
-/
def atPath (files : Files.FileSystem) (path : String) : Except SystemError Source :=
  match Files.resolve files path with
  | .error reason => .error reason
  | .ok (.file _ content) => ofContent content
  | .ok (.directory directory) =>
      match directory.access.refusal? with
      | some reason => .error reason
      | none => .ok ⟨[], some SystemError.isADirectory.message⟩

end Source

/-- A pattern to be searched for among files. -/
structure Search where
  pattern : Pattern
  settings : Settings
  files : Files.FileSystem

namespace Search

open Output

/-- The label to print before the lines of a source. -/
def printedLabel? (search : Search) (label? : Option String) : Option String :=
  if search.settings.printPaths then label? else none

/-- Print a line of a source if the pattern matches it. -/
def line (search : Search) (label? : Option String) (text : String) : Action Bool :=
  if search.pattern.isMatch text then do
    Action.writeLine (search.printedLabel? label?) text
    pure true
  else
    pure false

/-- Search a source that goes by this label, or by none. -/
def source
    (search : Search)
    (label? : Option String)
    (source : Source) :
    Action Bool := do
  let found ← Action.foundAmong source.lines (search.line label?)
  match source.failure? with
  | none => pure found
  | some reason =>
      Action.log (stoppedReading label? reason)
      pure found

end Search

end LineSearch
