import LineSearch.CommandLine.Run
import LineSearch.Files.Build

/-!
# The program

What a run can read is gathered first: standard input when no path is given, and
otherwise what is at the named paths and on the way there, with all that is below a
directory when directories are searched. The run itself is a function. Its output
and diagnostics are then written; when the output cannot be written, the run is
judged again with a device that takes nothing.
-/

namespace LineSearch.Main

open Files

/-- The number and the words of an error; some calls give the number with a minus sign. -/
def numberAndWords : IO.Error → UInt32 × String
  | .alreadyExists _ code words
  | .invalidArgument _ code words
  | .permissionDenied _ code words
  | .resourceExhausted _ code words
  | .inappropriateType _ code words
  | .noSuchThing _ code words
  | .noFileOrDirectory _ code words
  | .interrupted _ code words
  | .otherError code words
  | .resourceBusy code words
  | .resourceVanished code words
  | .unsupportedOperation code words
  | .hardwareFault code words
  | .unsatisfiedConstraints code words
  | .illegalOperation code words
  | .protocolError code words
  | .timeExpired code words => (if code < 0x80000000 then code else 0 - code, words)
  | .unexpectedEof => (0, "unexpected end of file")
  | .userError words => (0, words)

/-- The refusal that an error tells of. -/
def refusalOf (error : IO.Error) : SystemError :=
  match numberAndWords error with
  | (2, _) => .noSuchFile
  | (5, _) => .inputOutput
  | (13, _) => .permissionDenied
  | (20, _) => .notADirectory
  | (21, _) => .isADirectory
  | (28, _) => .noSpaceLeft
  | (36, _) => .nameTooLong
  | (40, _) => .tooManyLinks
  | (number, words) => .other number.toNat words

/-- Ask the system for something that it may refuse. -/
def ask (question : IO α) : IO (Except SystemError α) := do
  try
    pure (.ok (← question))
  catch error =>
    pure (.error (refusalOf error))

/-- The chunks in which a stream arrives, up to its end or to where it breaks off. -/
partial def readChunks
    (stream : IO.FS.Stream)
    (done : Array (List UInt8)) :
    IO (List (List UInt8) × Option SystemError) := do
  match ← ask (stream.read 65536) with
  | .error reason => pure (done.toList, some reason)
  | .ok chunk =>
      if chunk.isEmpty then
        pure (done.toList, none)
      else
        readChunks stream (done.push chunk.toList)

/-- What there is to be read of the file at a path. -/
def readContent (path : String) : IO Content := do
  match ← ask (IO.FS.Handle.mk path .read) with
  | .error reason => pure (.refused reason)
  | .ok handle =>
      let (chunks, failure?) ← readChunks (.ofHandle handle) #[]
      pure (.opens chunks.flatten failure?)

/-- What is at a path, links not followed. -/
def typeAt (path : String) : IO (Except SystemError IO.FS.FileType) := do
  let here ← IO.currentDir
  ask do
    let found ← (here / path).symlinkMetadata
    pure found.type

/-- The names that are listed in the directory at a path. -/
def namesAt (path : String) : IO (Except SystemError (List String)) := do
  let here ← IO.currentDir
  ask do
    let listed ← (here / path).readDir
    pure (listed.toList.map (·.fileName))

/-- Change what is gathered, or leave it when it cannot be changed so. -/
def changed
    (files : FileSystem)
    (change : FileSystem → Except SystemError FileSystem) :
    FileSystem :=
  match change files with
  | .ok files => files
  | .error _ => files

/-- Gather that there is nothing to be found at a path. -/
def addRefusal (files : FileSystem) (path : String) (reason : SystemError) : FileSystem :=
  match reason with
  -- These follow from what there is on the way.
  | .noSuchFile | .notADirectory | .nameTooLong => files
  | _ => changed files (·.hide path reason)

/-- A target for a link that leads nowhere: to the link itself if there is a cycle of links. -/
def targetNowhere (path : String) (reason : SystemError) : String :=
  if reason = .tooManyLinks then
    (Path.components path).getLastD ""
  else
    -- A name that nothing is gathered under.
    "\x01/nowhere"

/-- The paths of all that is on the way to a path, and the path itself. -/
def pathsOnTheWay (path : String) : List String :=
  let components := Path.components path
  (List.range components.length).filterMap fun count =>
    let way := "/".intercalate (components.take (count + 1))
    if way = "" then none else some way

mutual

/-- Gather what is at a path and on the way there, and below it if that is wanted. -/
partial def addPath
    (below : Bool)
    (files : FileSystem)
    (path : String) :
    IO FileSystem := do
  let files ← (pathsOnTheWay path).dropLast.foldlM (addStep false) files
  addStep below files path

/-- Gather what is at a path, when all on the way there is gathered. -/
partial def addStep
    (below : Bool)
    (files : FileSystem)
    (path : String) :
    IO FileSystem := do
  match ← typeAt path with
  | .error reason => pure (addRefusal files path reason)
  | .ok .dir =>
      let files := changed files (·.makeDirectory path)
      if below then
        match ← namesAt path with
        | .error reason => pure (changed files (·.setAccess path (.refused reason)))
        | .ok names => names.foldlM (fun files name => addListed files (Path.join path name)) files
      else
        pure files
  | .ok .symlink =>
      match ← ask (IO.FS.realPath path) with
      | .ok target =>
          let files ← addPath below files target.toString
          pure (changed files (·.makeLink path target.toString))
      | .error _ =>
          let followed ← ask (IO.FS.Handle.mk path .read)
          let reason :=
            match followed with
            | .error reason => reason
            | .ok _ => .noSuchFile
          pure (changed files (·.makeLink path (targetNowhere path reason)))
  | .ok .file =>
      let content ← readContent path
      pure (changed files (·.makeFile path .regular content))
  | .ok .other =>
      let content ← readContent path
      pure (changed files (·.makeFile path .special content))

/-- Gather an entry of a directory: no link is followed to what is below it, and no pipe is read. -/
partial def addListed (files : FileSystem) (path : String) : IO FileSystem := do
  match ← typeAt path with
  | .ok .symlink => addStep false files path
  | .ok .other => pure (changed files (·.makeFile path .special (.opens [] none)))
  | _ => addStep true files path

end

/-- Gather what a run with these arguments can read. -/
def gather (arguments : List String) : IO CommandLine.Environment := do
  let (input, failure?) ←
    if CommandLine.searchedPaths? arguments = some [] then
      readChunks (← IO.getStdin) #[]
    else
      pure ([], none)
  let here ← IO.currentDir
  let working := (Path.components here.toString).filter (· != "")
  let below := CommandLine.searchesBelow arguments
  let paths := (CommandLine.searchedPaths? arguments).getD []
  let files ← paths.foldlM (addPath below) (.bare working)
  pure {
    standardInput := ⟨input, failure?.map (·.message)⟩
    files := files
    output := .unlimited
  }

/-- Write the output of a run; false when it cannot be written. -/
def writeOutput (ending : CommandLine.Ending) : IO Bool := do
  try
    let output ← IO.getStdout
    output.write ⟨ending.output.taken⟩
    output.flush
    pure true
  catch _ =>
    pure false

/-- Write the diagnostics of a run. -/
def writeDiagnostics (ending : CommandLine.Ending) : IO Unit := do
  match ending.diagnostics with
  | .usage => IO.eprint CommandLine.helpText
  | .lines lines => lines.forM fun line => IO.eprintln line

end LineSearch.Main

/-- Run the program on its arguments. -/
def main (arguments : List String) : IO UInt32 := do
  let environment ← LineSearch.Main.gather arguments
  let ending := LineSearch.CommandLine.run environment arguments
  let written ← LineSearch.Main.writeOutput ending
  let judged :=
    if written then
      ending
    else
      LineSearch.CommandLine.run
        { environment with
          output := .full LineSearch.SystemError.noSpaceLeft.message }
        arguments
  LineSearch.Main.writeDiagnostics judged
  pure judged.code.toUInt32
