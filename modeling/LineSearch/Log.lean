namespace LineSearch.Log

/-!
# Log records

Whoever runs a search can ask for more or less detail. Every record has a level;
a record is shown when its level is at or above the one asked for.
-/

/-- How much a record matters, the most important level first. -/
inductive Level where
  | warn
  | info
  | debug
  | trace
  deriving Repr, DecidableEq

namespace Level

/-- The least important level shown when more detail was asked for this many times. -/
def ofVerbosity : Nat → Level
  | 0 => .warn
  | 1 => .info
  | 2 => .debug
  | _ => .trace

/-- How far a level is from the most important one. -/
def rank : Level → Nat
  | .warn => 0
  | .info => 1
  | .debug => 2
  | .trace => 3

/-- The name of a level in a written record. -/
def name : Level → String
  | .warn => "WARN"
  | .info => "INFO"
  | .debug => "DEBUG"
  | .trace => "TRACE"

end Level

/-- The part of the program that a record comes from. -/
inductive Origin where
  | patterns
  | search
  deriving Repr, DecidableEq

namespace Origin

/-- The name of an origin in a written record. -/
def name : Origin → String
  | .patterns => "ergrep::pattern::parser"
  | .search => "ergrep::search"

end Origin

/-- One log record. -/
structure Record where
  level : Level
  origin : Origin
  message : String
  deriving Repr, DecidableEq

namespace Record

/-- A record as one line of text, without a line ending. -/
def line (record : Record) : String :=
  record.level.name ++ "|" ++ record.origin.name ++ ": " ++ record.message

/-- Is a record shown when this is the least important level wanted? -/
def isShown (level : Level) (record : Record) : Bool :=
  record.level.rank ≤ level.rank

end Record

/-- The lines shown of these records, in order. -/
def shownLines (level : Level) (records : List Record) : List String :=
  (records.filter (·.isShown level)).map (·.line)

end LineSearch.Log
