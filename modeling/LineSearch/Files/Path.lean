import LineSearch.SystemError
import LineSearch.Text.Segments

namespace LineSearch.Files

/-!
# Paths

A path is a text, shown as it was given. What it means is in its components, the
segments between its slashes: names, and the special components for the
directory itself and the one above. The system takes no path that is too long,
whatever it would mean.
-/

namespace Path

/-- The segments of a path between its slashes, empty ones included. -/
def components (path : String) : List String :=
  (segments '/' path.toList).map String.ofList

/-- Does a path begin at the root of all files, wherever it is used? -/
def isAbsolute (path : String) : Bool :=
  path.toList.head? == some '/'

/-- The path of an entry of the directory at this path, with one slash between them. -/
def join (directory name : String) : String :=
  if directory.toList.getLast? = some '/' then
    directory ++ name
  else
    directory ++ "/" ++ name

/-- The greatest number of bytes in one name. -/
def nameLimit : Nat := 255

/-- The greatest number of bytes in one path. -/
def limit : Nat := 4095

/-- Has a path more bytes than the system takes? -/
def isTooLong (path : String) : Bool :=
  limit < path.utf8ByteSize

/-- Why the system does not even look at a path, if it does not. -/
def refusal? (path : String) : Option SystemError :=
  if path.toList.contains '\x00' then
    some .zeroInPath
  else if path = "" then
    some .noSuchFile
  else if isTooLong path then
    some .nameTooLong
  else
    none

end Path

/-- A name that a directory can list. -/
structure IsName (name : String) : Prop where
  notEmpty : name ≠ ""
  notHere : name ≠ "."
  notAbove : name ≠ ".."
  noSlash : '/' ∉ name.toList
  noZero : '\x00' ∉ name.toList
  fits : name.utf8ByteSize ≤ Path.nameLimit

instance (name : String) : Decidable (IsName name) :=
  decidable_of_iff
    (name ≠ "" ∧ name ≠ "." ∧ name ≠ ".." ∧ '/' ∉ name.toList ∧
      '\x00' ∉ name.toList ∧ name.utf8ByteSize ≤ Path.nameLimit)
    ⟨fun ⟨notEmpty, notHere, notAbove, noSlash, noZero, fits⟩ =>
        ⟨notEmpty, notHere, notAbove, noSlash, noZero, fits⟩,
      fun isName =>
        ⟨isName.notEmpty, isName.notHere, isName.notAbove, isName.noSlash,
          isName.noZero, isName.fits⟩⟩

end LineSearch.Files
