import LineSearch.Files.Tree

namespace LineSearch.Files

/-!
# Places in a tree

A place is a directory of a tree together with the way back to the root, so one can
go up from it, and a change made in it is a change of the whole tree. Above the root
there is nothing: going up from it leads to the root again.
-/

/-- A directory, with the directories above it: the nearest first, each with the name gone down by. -/
structure Place where
  here : Directory
  above : List (String × Directory)

namespace Place

/-- The place from which all others are reached. -/
def atRoot (root : Directory) : Place :=
  ⟨root, []⟩

/-- The directory above, which for the root is the root itself. -/
def up (place : Place) : Place :=
  match place.above with
  | [] => place
  | (_, nearest) :: farther => ⟨nearest, farther⟩

/-- The root of the tree in which a place is. -/
def top (place : Place) : Place :=
  match place.above.getLast? with
  | none => place
  | some (_, root) => .atRoot root

/-- A directory among the entries of this one. -/
def down (place : Place) (name : String) (directory : Directory) : Place :=
  ⟨directory, (name, place.here) :: place.above⟩

/-- The root after a directory below it has been replaced by this one. -/
def rebuild : Directory → List (String × Directory) → Directory
  | directory, [] => directory
  | directory, (name, nearest) :: farther =>
      rebuild (nearest.put name directory.entry) farther

/-- The root after a name in this directory has come to stand for this entry. -/
def put (place : Place) (name : String) (entry : Entry) : Directory :=
  rebuild (place.here.put name entry) place.above

/-- The root after this directory has come to be listed in this way. -/
def setAccess (place : Place) (access : Access) : Directory :=
  rebuild { place.here with access := access } place.above

end Place

end LineSearch.Files
