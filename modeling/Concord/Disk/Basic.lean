import Concord.Disk.Tree
import Concord.Lookup.Failure

/-!
# Looking at a disk

A disk is a tree seen from a working directory. Everything that the library asks of it is a function
of the two: what a path leads to, whether that is a file or a directory, and the text of a file.
-/

namespace Concord

/-- A tree of files together with the place from which relative paths lead. -/
structure Disk where
  /-- The directory at the top. -/
  tree : Node
  /-- The names from the top to the working directory. -/
  cwd : List String

namespace Disk

/-- The names from the top to what a path leads to. The empty path leads nowhere. -/
def locate (d : Disk) (p : Path) : Except WalkFailure (List String) :=
  if p.isEmpty then .error .missing
  else
    let found :=
      if p.isAbsolute then d.tree.walk [] p.rest else d.tree.walk d.cwd.reverse p.segments
    found.map List.reverse

/-- What a path leads to. -/
def node? (d : Disk) (p : Path) : Option Node :=
  match d.locate p with
  | .ok place => d.tree.at? place
  | .error _ => none

/-- Whether a path leads to anything. -/
def pathExists (d : Disk) (p : Path) : Bool := (d.node? p).isSome

/-- Whether a path leads to a file. -/
def isFile (d : Disk) (p : Path) : Bool :=
  match d.node? p with
  | some (.file _) => true
  | _ => false

/-- Whether a path leads to a directory. -/
def isDirectory (d : Disk) (p : Path) : Bool :=
  match d.node? p with
  | some (.directory _) => true
  | _ => false

/-- The text of the file that a path leads to. -/
def readText (d : Disk) (p : Path) : Except ReadFailure String :=
  match d.locate p with
  | .error .missing => .error .notFound
  | .error .notADirectory => .error .notADirectory
  | .ok place =>
    match d.tree.at? place with
    | some (.file (some text)) => .ok text
    | some (.file none) => .error .notText
    | some (.directory _) => .error .isDirectory
    | none => .error .notFound

end Disk

end Concord
