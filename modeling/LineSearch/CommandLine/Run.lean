import LineSearch.CommandLine.Arguments
import LineSearch.CommandLine.Help
import LineSearch.ExitStatus
import LineSearch.Pattern.Announcement
import LineSearch.Search.Call

namespace LineSearch.CommandLine

/-!
# One run of the program

A run is a function of its arguments, of what can be read, and of the device that
its output goes to. Records and errors are diagnostics; they go elsewhere.
-/

/-- What is there to be read, and where the output goes. -/
structure Environment where
  standardInput : Source
  files : Files.FileSystem
  output : Output.Device

/-- What a run says beside its output. -/
inductive Diagnostics where
  /-- How the program is to be used. -/
  | usage
  | lines (lines : List String)
  deriving Repr, DecidableEq

/-- What is left of a run. -/
structure Ending where
  code : Nat
  output : Output.Device
  diagnostics : Diagnostics

/-- Print a text that was asked for; that it cannot be printed is no trouble. -/
def printText (environment : Environment) (text : String) : Ending :=
  {
    code := ExitStatus.matched.code
    output := (environment.output.write (Utf8.encode text)).state
    diagnostics := .lines []
  }

/-- Refuse arguments that do not say what to search for. -/
def refuse (environment : Environment) : Ending :=
  {
    code := ExitStatus.trouble.code
    output := environment.output
    diagnostics := .usage
  }

/-- The search for a pattern in these paths. -/
def searchIn
    (environment : Environment)
    (pattern : Pattern)
    (recursive : Bool)
    (paths : List String) :
    Search :=
  {
    pattern := pattern
    settings := .forPaths recursive paths.length
    files := environment.files
  }

/-- What a search is called for: standard input when there are no paths. -/
def callFor (environment : Environment) (paths : List String) : Search.Call :=
  if paths.isEmpty then
    .source none environment.standardInput
  else
    .operands paths

/-- Perform a call through a gathering channel, and flush it unless a line was refused. -/
def performAndFlush
    (device : Output.Device)
    (search : Search)
    (call : Search.Call) :
    Output.Delivery :=
  let performed : Output.Action Bool := do
    let found ← search.action call
    Output.Action.flush
    pure found
  performed.deliver (.gathering device)

/-- How a search ended that was delivered. -/
def statusOf (delivery : Output.Delivery) : ExitStatus :=
  match delivery.result with
  | .ok found => .ofFound found
  | .error _ => .trouble

/-- Search for a pattern in paths, or in standard input. -/
def searchFor
    (environment : Environment)
    (level : Log.Level)
    (pattern : Pattern)
    (recursive : Bool)
    (paths : List String) :
    Ending :=
  let delivery :=
    performAndFlush environment.output
      (searchIn environment pattern recursive paths)
      (callFor environment paths)
  let records := pattern.announcement ++ delivery.records
  let errors := delivery.failure?.toList.map fun failure => "error: " ++ failure.message
  {
    code := (statusOf delivery).code
    output := delivery.channel.device
    diagnostics := .lines (Log.shownLines level records ++ errors)
  }

/-- The paths that a run with these arguments searches, if it searches at all. -/
def searchedPaths? (arguments : List String) : Option (List String) :=
  match Arguments.parse arguments with
  | .error _ => none
  | .ok arguments => arguments.patternAndPaths?.map (·.2)

/-- Does a run with these arguments search directories? -/
def searchesBelow (arguments : List String) : Bool :=
  match Arguments.parse arguments with
  | .error _ => false
  | .ok arguments => arguments.recursive

/-- Do what arguments say that were read without objection. -/
def perform (environment : Environment) (arguments : Arguments) : Ending :=
  match arguments.patternAndPaths? with
  | none => refuse environment
  | some (text, paths) =>
      match Pattern.compile text with
      | .error reason =>
          {
            code := ExitStatus.trouble.code
            output := environment.output
            diagnostics := .lines ["error: invalid pattern: " ++ reason.message]
          }
      | .ok pattern =>
          searchFor environment (.ofVerbosity arguments.verbosity) pattern
            arguments.recursive paths

/-- Run the program. -/
def run (environment : Environment) (arguments : List String) : Ending :=
  match Arguments.parse arguments with
  | .error .help => printText environment helpText
  | .error .version => printText environment versionText
  | .error .misuse => refuse environment
  | .ok arguments => perform environment arguments

end LineSearch.CommandLine
