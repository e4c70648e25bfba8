import LineSearch.SystemError

namespace LineSearch.Files

/-!
# File trees

All files form one tree below the root directory. A directory lists its entries by
name, each name once, in no particular order. Not everything in the tree can be
read: the system may refuse to open a file or to list a directory, and it may begin
with either and break off.
-/

/-- What there is to be read of a file. -/
inductive Content where
  /-- These bytes, and then the end of the file, or a failure. -/
  | opens (bytes : List UInt8) (failure? : Option SystemError)
  /-- The file cannot be opened. -/
  | refused (reason : SystemError)
  deriving Repr, DecidableEq

/-- What kind of file it is that is neither a directory nor a link. -/
inductive FileKind where
  | regular
  /-- A pipe, a socket or a device. -/
  | special
  deriving Repr, DecidableEq

/-- What the system tells when a directory is to be listed. -/
inductive Access where
  /-- All its entries. -/
  | whole
  /-- Only so many of its entries, and these failures in place of the others. -/
  | partly (count : Nat) (failures : List SystemError)
  /-- The directory cannot be listed. -/
  | refused (reason : SystemError)
  deriving Repr, DecidableEq

namespace Access

/-- What is listed of a directory's entries. -/
def listed (access : Access) (entries : List α) : List α :=
  match access with
  | .whole => entries
  | .partly count _ => entries.take count
  | .refused _ => []

/-- The failures that are met when a directory is listed. -/
def failures : Access → List SystemError
  | .partly _ failures => failures
  | .whole | .refused _ => []

/-- Why a directory cannot be listed, if it cannot. -/
def refusal? : Access → Option SystemError
  | .refused reason => some reason
  | .whole | .partly .. => none

end Access

/-- What a name in a directory stands for. -/
inductive Entry where
  | file (kind : FileKind) (content : Content)
  /-- A symbolic link, with the path it holds. -/
  | link (target : String)
  | directory (access : Access) (entries : List (String × Entry))
  /-- Something of which the system does not even tell what it is. -/
  | hidden (reason : SystemError)
  deriving Repr

/-- The entries of a directory, by name. -/
abbrev Listing := List (String × Entry)

namespace Entry

/-- A regular file that can be read to its end. -/
@[match_pattern] abbrev plain (bytes : List UInt8) : Entry :=
  .file .regular (.opens bytes none)

/-- A directory that can be listed. -/
@[match_pattern] abbrev folder (entries : Listing) : Entry :=
  .directory .whole entries

end Entry

/-- A directory, apart from what it is called and where it stands. -/
structure Directory where
  access : Access
  entries : Listing
  deriving Repr

namespace Directory

/-- A directory as an entry of another one. -/
abbrev entry (directory : Directory) : Entry :=
  .directory directory.access directory.entries

/-- Let a name stand for this entry, whatever it stood for before. -/
def put (directory : Directory) (name : String) (entry : Entry) : Directory :=
  { directory with
    entries :=
      directory.entries.filter (fun other => other.1 != name) ++ [(name, entry)] }

end Directory

/-- All files there are, and where in their tree a search takes place. -/
structure FileSystem where
  root : Directory
  /-- The names on the way from the root to the working directory. -/
  working : List String
  deriving Repr

end LineSearch.Files
