namespace LineSearch.CommandLine

/-!
# Arguments

Arguments are read from left to right. Options and operands may stand in any
order until `--`, behind which everything is an operand. Short options can be
gathered behind one dash. The first thing that is wrong ends the reading, and so
does the first request for help or for the version.
-/

/-- What the arguments of a search say. -/
structure Arguments where
  /-- The pattern given by an option. -/
  pattern? : Option String
  recursive : Bool
  /-- How many times more detail was asked for. -/
  verbosity : Nat
  operands : List String
  deriving Repr, DecidableEq

/-- Reasons to stop reading arguments. -/
inductive Stop where
  | help
  | version
  | misuse
  deriving Repr, DecidableEq

namespace Arguments

/-- What is the case before any argument is read. -/
def initial : Arguments :=
  { pattern? := none, recursive := false, verbosity := 0, operands := [] }

/-- Take the pattern from an option, which may be given once. -/
def givePattern
    (arguments : Arguments)
    (text : String) :
    Except Stop Arguments :=
  if arguments.pattern?.isSome then
    .error .misuse
  else
    .ok { arguments with pattern? := some text }

/-- Ask for directories to be searched, which may be done once. -/
def askRecursive (arguments : Arguments) : Except Stop Arguments :=
  if arguments.recursive then
    .error .misuse
  else
    .ok { arguments with recursive := true }

/-- Ask for more detail. -/
def askDetail (arguments : Arguments) : Arguments :=
  { arguments with verbosity := arguments.verbosity + 1 }

/-- Add operands behind those there are. -/
def addOperands (arguments : Arguments) (operands : List String) : Arguments :=
  { arguments with operands := arguments.operands ++ operands }

end Arguments

/-- What to do next after an option: go on, or take its value from the next argument. -/
inductive Step where
  | goOn (arguments : Arguments)
  | awaitPattern (arguments : Arguments)

/-- Read the short options gathered behind one dash. -/
def readShort (arguments : Arguments) : List Char → Except Stop Step
  | [] => .ok (.goOn arguments)
  | 'E' :: [] => .ok (.awaitPattern arguments)
  | 'E' :: '=' :: value => (arguments.givePattern (String.ofList value)).map .goOn
  | 'E' :: value => (arguments.givePattern (String.ofList value)).map .goOn
  | 'r' :: rest =>
      match arguments.askRecursive with
      | .error stop => .error stop
      | .ok arguments => readShort arguments rest
  | 'v' :: rest => readShort arguments.askDetail rest
  | 'h' :: _ => .error .help
  | 'V' :: _ => .error .version
  | _ :: _ => .error .misuse

/-- A long option is a name, with a value behind the first `=` if there is one. -/
def splitLong (text : List Char) : String × Option String :=
  let name := String.ofList (text.takeWhile (· != '='))
  match text.dropWhile (· != '=') with
  | [] => (name, none)
  | _ :: value => (name, some (String.ofList value))

/-- Read one long option from behind its dashes. -/
def readLong (arguments : Arguments) (text : List Char) : Except Stop Step :=
  match splitLong text with
  | ("extended-regexp", none) => .ok (.awaitPattern arguments)
  | ("extended-regexp", some value) => (arguments.givePattern value).map .goOn
  | ("recursive", none) => arguments.askRecursive.map .goOn
  | ("verbose", none) => .ok (.goOn arguments.askDetail)
  | ("help", none) => .error .help
  | ("version", none) => .error .version
  | _ => .error .misuse

/-- Read one argument that is not `--`. -/
def readArgument (arguments : Arguments) (argument : String) : Except Stop Step :=
  match argument.toList with
  | '-' :: '-' :: text => readLong arguments text
  | '-' :: char :: chars => readShort arguments (char :: chars)
  | _ => .ok (.goOn (arguments.addOperands [argument]))

/-- Can this argument be the value of the option before it? -/
def isValue (argument : String) : Bool :=
  argument == "-" || argument.toList.head? != some '-'

/-- Read arguments, on top of what those before them say. -/
def readArguments (arguments : Arguments) : List String → Except Stop Arguments
  | [] => .ok arguments
  | argument :: rest =>
      if argument = "--" then
        .ok (arguments.addOperands rest)
      else
        match readArgument arguments argument, rest with
        | .error stop, _ => .error stop
        | .ok (.goOn arguments), rest => readArguments arguments rest
        | .ok (.awaitPattern _), [] => .error .misuse
        | .ok (.awaitPattern arguments), value :: rest =>
            if isValue value then
              match arguments.givePattern value with
              | .error stop => .error stop
              | .ok arguments => readArguments arguments rest
            else
              .error .misuse

namespace Arguments

/-- What a list of arguments says, or why there is nothing to search. -/
def parse (arguments : List String) : Except Stop Arguments :=
  readArguments .initial arguments

/--
The pattern to search for and the paths to search.

An empty pattern is none: the first operand that is not empty takes its place,
and the operands behind that one are the paths.
-/
def patternAndPaths? (arguments : Arguments) : Option (String × List String) :=
  match arguments.pattern?.filter (· != "") with
  | some pattern => some (pattern, arguments.operands)
  | none =>
      match arguments.operands.dropWhile (· == "") with
      | [] => none
      | pattern :: paths => some (pattern, paths)

end Arguments

end LineSearch.CommandLine
