import LineSearch.Files.Path
import LineSearch.Files.Place

namespace LineSearch.Files

/-!
# What a path leads to

A path is followed component by component, an absolute one from the root and any
other from the working directory. A symbolic link is replaced by the components of
its target, to be followed from the directory that holds it or from the root; how
many links one path may pass is limited, so even a cycle of links comes to an end.
Following ends because each step passes a link or leaves fewer components.
-/

/-- Where a path ends once all links are followed. -/
inductive Location where
  | directory (place : Place)
  /-- At a file in a directory. -/
  | file (place : Place) (name : String) (kind : FileKind) (content : Content)
  /-- At a name that stands for nothing yet in a directory. -/
  | vacant (place : Place) (name : String)

/-- How many links one path may pass. -/
def linkLimit : Nat := 40

/-- Where the target of a link begins that this directory holds. -/
def startOf (target : String) (place : Place) : Place :=
  if Path.isAbsolute target then place.top else place

/-- Follow components from a directory, passing at most so many links. -/
def locate : Nat → Place → List String → Except SystemError Location
  | _, place, [] => .ok (.directory place)
  | links, place, name :: rest =>
      if name = "" ∨ name = "." then
        locate links place rest
      else if name = ".." then
        locate links place.up rest
      else if Path.nameLimit < name.utf8ByteSize then
        .error .nameTooLong
      else
        match place.here.entries.lookup name with
        | none =>
            if rest = [] then
              .ok (.vacant place name)
            else
              .error .noSuchFile
        | some (.file kind content) =>
            if rest = [] then
              .ok (.file place name kind content)
            else
              .error .notADirectory
        | some (.hidden reason) => .error reason
        | some (.directory access entries) =>
            locate links (place.down name ⟨access, entries⟩) rest
        | some (.link target) =>
            match links with
            | 0 => .error .tooManyLinks
            | fewer + 1 =>
                locate fewer (startOf target place)
                  (Path.components target ++ rest)
  termination_by links _ components => (links, components.length)

namespace FileSystem

/-- The names that come in front of those in a path. -/
def start (files : FileSystem) (path : String) : List String :=
  if Path.isAbsolute path then [] else files.working

/-- All components to be followed for a path, from the root on. -/
def way (files : FileSystem) (path : String) : List String :=
  files.start path ++ Path.components path

/-- Where a path ends. -/
def follow (files : FileSystem) (path : String) : Except SystemError Location :=
  locate linkLimit (.atRoot files.root) (files.way path)

end FileSystem

/-- What a path leads to. -/
inductive Resolved where
  | file (kind : FileKind) (content : Content)
  | directory (directory : Directory)
  deriving Repr

/-- What a path leads to, if the system takes the path and finds something at its end. -/
def resolve (files : FileSystem) (path : String) : Except SystemError Resolved :=
  match Path.refusal? path with
  | some reason => .error reason
  | none =>
      match files.follow path with
      | .error reason => .error reason
      | .ok (.vacant ..) => .error .noSuchFile
      | .ok (.file _ _ kind content) => .ok (.file kind content)
      | .ok (.directory place) => .ok (.directory place.here)

/-- Is there a regular file at this path, once all links are followed? -/
def isRegular (files : FileSystem) (path : String) : Bool :=
  match resolve files path with
  | .ok (.file .regular _) => true
  | _ => false

/-- The directory at this path, if it is one that can be listed. -/
def readDirectory (files : FileSystem) (path : String) : Except SystemError Directory :=
  match resolve files path with
  | .error reason => .error reason
  | .ok (.file ..) => .error .notADirectory
  | .ok (.directory directory) =>
      match directory.access.refusal? with
      | some reason => .error reason
      | none => .ok directory

end LineSearch.Files
