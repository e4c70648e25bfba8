import LineSearch.Search.Source

namespace LineSearch.Search

/-!
# Searching files and directories

A path that cannot be followed, opened or listed is logged and left out; nothing
that is wrong with a path ends a search. A directory is walked depth first, its
entries in the order of their names. What an entry is itself decides how it is
treated: real directories are entered, and links to directories are not, so a walk
ends whatever the links are.

An entry goes by the path of its directory with its name behind it. That path may
have become too long for the system, and then the entry cannot be searched.
-/

open Output Files

/-- Search the file at a path. -/
def file (search : Search) (path : String) : Action Bool :=
  match Source.atPath search.files path with
  | .error reason => Action.leaveOut (skipped path reason)
  | .ok source => do
      Action.log (searching path)
      search.source (some path) source

/-- Names stand in the order of their bytes. -/
def nameLE (left right : String) : Bool :=
  decide (Utf8.encode left ≤ Utf8.encode right)

/-- Put what goes by names in the order of the names. -/
def inNameOrder (byName : List (String × α)) : List (String × α) :=
  byName.mergeSort fun left right => nameLE left.1 right.1

mutual

/-- Search an entry met in a directory, known by its path. -/
def entry (search : Search) (path : String) : Entry → Action Bool
  | .directory access entries =>
      match readDirectory search.files path with
      | .error reason => Action.leaveOut (directorySkipped path reason)
      | .ok _ => do
          access.failures.forM fun reason => Action.log (entrySkipped path reason)
          Action.foundAmong
            (inNameOrder (access.listed (entriesByName search path entries))) (·.2)
  | .file .. | .link _ =>
      if isRegular search.files path then
        search.file path
      else
        Action.leaveOut (notRegular path)
  | .hidden reason => Action.leaveOut (skipped path reason)

/-- How each of these entries of the directory at a path is searched, by name. -/
def entriesByName
    (search : Search)
    (path : String) :
    List (String × Entry) → List (String × Action Bool)
  | [] => []
  | (name, inner) :: rest =>
      (name, entry search (Path.join path name) inner) ::
        entriesByName search path rest

end

/-- Search a directory with all that is below it. -/
def directory (search : Search) (path : String) : Action Bool :=
  match readDirectory search.files path with
  | .error reason => Action.leaveOut (directorySkipped path reason)
  | .ok directory => search.entry path directory.entry

/-- Search a path that may be a file or a directory. -/
def operand (search : Search) (path : String) : Action Bool :=
  match resolve search.files path with
  | .error reason => Action.leaveOut (skipped path reason)
  | .ok (.file ..) => search.file path
  | .ok (.directory _) =>
      if search.settings.recursive then
        search.directory path
      else
        Action.leaveOut (directoryNotSearched path)

/-- Search paths one after the other. -/
def operands (search : Search) (paths : List String) : Action Bool :=
  Action.foundAmong paths search.operand

end LineSearch.Search
