import LineSearch.Files.Resolve

namespace LineSearch.Files

/-!
# Building a tree

A tree is built by making directories and links and by writing files, each at the
end of a path that may itself lead through links. Directories that are missing on
the way are made. Writing to a link writes the file it leads to, and makes that
file if there is none yet. What the system refuses as a path is refused here too.
-/

/-- Where these components lead from the root. -/
def locateFromRoot
    (root : Directory)
    (components : List String) :
    Except SystemError Location :=
  locate linkLimit (.atRoot root) components

/-- Make the directories that are missing on a way, of which the first part is there. -/
def makeWay
    (root : Directory)
    (passed : List String) :
    List String → Except SystemError Directory
  | [] => .ok root
  | name :: rest =>
      let way := passed ++ [name]
      match locateFromRoot root way with
      | .error reason => .error reason
      | .ok (.directory _) => makeWay root way rest
      | .ok (.vacant place name) => makeWay (place.put name (.folder [])) way rest
      | .ok (.file ..) => .error .notADirectory

/-- A directory with nothing in it but one directory in another, by these names. -/
def nested : List String → Directory
  | [] => ⟨.whole, []⟩
  | name :: rest => ⟨.whole, [(name, (nested rest).entry)]⟩

namespace FileSystem

/-- The file system with nothing in it but the working directory, this way below the root. -/
def bare (working : List String) : FileSystem :=
  ⟨nested working, working⟩

/-- Change the tree at the end of a path, if the system takes the path. -/
def change
    (files : FileSystem)
    (path : String)
    (make : Directory → List String → Except SystemError Directory) :
    Except SystemError FileSystem :=
  match Path.refusal? path with
  | some reason => .error reason
  | none =>
      (make files.root (files.way path)).map fun root => { files with root := root }

/-- Make a directory at the end of a path, if it is not there yet. -/
def makeDirectory (files : FileSystem) (path : String) : Except SystemError FileSystem :=
  files.change path fun root way => makeWay root [] way

/-- Let the directory at the end of a path be listed in this way. -/
def setAccess
    (files : FileSystem)
    (path : String)
    (access : Access) :
    Except SystemError FileSystem :=
  files.change path fun root way =>
    match locateFromRoot root way with
    | .error reason => .error reason
    | .ok (.directory place) => .ok (place.setAccess access)
    | .ok (.vacant ..) => .error .noSuchFile
    | .ok (.file ..) => .error .notADirectory

/-- Put a file at the end of a path. -/
def makeFile
    (files : FileSystem)
    (path : String)
    (kind : FileKind)
    (content : Content) :
    Except SystemError FileSystem :=
  files.change path fun root way =>
    match makeWay root [] way.dropLast with
    | .error reason => .error reason
    | .ok root =>
        match locateFromRoot root way with
        | .error reason => .error reason
        | .ok (.directory _) => .error .isADirectory
        | .ok (.file place name ..) => .ok (place.put name (.file kind content))
        | .ok (.vacant place name) => .ok (place.put name (.file kind content))

/-- Write bytes to a file at the end of a path. -/
def writeFile
    (files : FileSystem)
    (path : String)
    (bytes : List UInt8) :
    Except SystemError FileSystem :=
  files.makeFile path .regular (.opens bytes none)

/-- Let the last name of a path stand for this entry, whatever it stood for before. -/
def putName
    (files : FileSystem)
    (path : String)
    (entry : Entry) :
    Except SystemError FileSystem :=
  files.change path fun root way =>
    match makeWay root [] way.dropLast with
    | .error reason => .error reason
    | .ok root =>
        match locateFromRoot root way.dropLast, way.getLast? with
        | .error reason, _ => .error reason
        | .ok (.directory place), some name =>
            if IsName name then
              .ok (place.put name entry)
            else
              .error .isADirectory
        | .ok _, _ => .error .noSuchFile

/-- Make a link at the end of a path. -/
def makeLink
    (files : FileSystem)
    (path target : String) :
    Except SystemError FileSystem :=
  match Path.refusal? target with
  | some reason => .error reason
  | none => files.putName path (.link target)

/-- Let the system not tell what is at the end of a path. -/
def hide
    (files : FileSystem)
    (path : String)
    (reason : SystemError) :
    Except SystemError FileSystem :=
  files.putName path (.hidden reason)

end FileSystem

end LineSearch.Files
