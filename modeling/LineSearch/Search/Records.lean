import LineSearch.Log
import LineSearch.SystemError

namespace LineSearch.Search

/-!
# What a search logs

Whatever is left out of a search is logged, and every file that is read.
-/

/-- A path is left out. -/
def skipped (path : String) (reason : SystemError) : Log.Record :=
  ⟨.info, .search, s!"skipping {path}: {reason.message}"⟩

/-- A directory is left out because none is searched. -/
def directoryNotSearched (path : String) : Log.Record :=
  ⟨.info, .search, s!"skipping directory {path} (not searching recursively)"⟩

/-- A directory cannot be listed. -/
def directorySkipped (path : String) (reason : SystemError) : Log.Record :=
  ⟨.info, .search, s!"skipping directory {path}: {reason.message}"⟩

/-- An entry of the directory at this path cannot be listed. -/
def entrySkipped (path : String) (reason : SystemError) : Log.Record :=
  ⟨.info, .search, s!"skipping entry in {path}: {reason.message}"⟩

/-- An entry of a directory holds no text. -/
def notRegular (path : String) : Log.Record :=
  ⟨.debug, .search, s!"skipping {path}: not a regular file"⟩

/-- A file is about to be read. -/
def searching (path : String) : Log.Record :=
  ⟨.debug, .search, s!"searching {path}"⟩

/-- A source broke off; standard input has a name for this only. -/
def stoppedReading (label? : Option String) (reason : String) : Log.Record :=
  let name := label?.getD "<stdin>"
  ⟨.info, .search, s!"stopped reading {name}: {reason}"⟩

end LineSearch.Search
