import Concord.Disk.Basic
import Concord.Glob.Pattern

/-!
# Patterns on a disk

A pattern expands to the paths on a disk that it selects. It is cut at its slashes, and each piece
leads from a directory to some of its entries; two stars lead to everything below. A piece without
special characters is only looked up, hence `.` and `..` stay in the paths where they are written.
The working directory is the one place that leaves no trace in front of a path.
-/

namespace Concord

/-- The path of an entry of a directory, the working directory being left out. -/
def Path.child (directory : Path) (name : String) : Path :=
  if directory.same ⟨".", []⟩ then ⟨name, []⟩ else directory.entry name

mutual

/-- Everything below a node that a path leads to, each entry with its name and its path. -/
def Node.allUnder (place : Path) : Node → List (String × Path)
  | .file _ => []
  | .directory entries => entriesUnder place entries

/-- Entries of a directory, each followed by everything below it. -/
def entriesUnder (place : Path) : List (String × Node) → List (String × Path)
  | [] => []
  | (name, node) :: rest =>
    (name, place.child name) :: node.allUnder (place.child name) ++ entriesUnder place rest

end

namespace Disk

/-- The entries of the directory that a path leads to, each with its name and its path. -/
def children (d : Disk) (place : Path) : List (String × Path) :=
  match d.node? place with
  | some n => n.entries.map fun entry => (entry.1, place.child entry.1)
  | none => []

/-- Everything below the directory that a path leads to. -/
def descendants (d : Disk) (place : Path) : List (String × Path) :=
  match d.node? place with
  | some n => n.allUnder place
  | none => []

/-- Whether a piece is a step that is no entry of a directory. -/
def isDotStep (piece : String) : Bool := piece = "." || piece = ".."

/-- Where a piece without special characters leads from a place, if there is anything. -/
def lookUp? (d : Disk) (piece : String) (place : Path) : Option Path :=
  let next := place.child piece
  if if isDotStep piece then d.isDirectory place else d.pathExists next then some next else none

/-- The dot steps that a piece selects from a directory; it must begin with a dot itself. -/
def dotSteps (d : Disk) (piece : Pattern) (place : Path) : List Path :=
  if d.isDirectory place && piece.tokens.head? = some (.literal '.') then
    (["..", "."].filter piece.accepts).map place.entry
  else []

/-- The paths to which pieces of a pattern lead from a place. -/
def follow (d : Disk) : List Pattern → Path → List Path
  | [], place => [place]
  | piece :: rest, place =>
    if piece.isRecursive then
      match rest with
      | [] => ((d.descendants place).map Prod.snd).filter d.isDirectory
      | next :: rest =>
        if next.isRecursive then d.follow (next :: rest) place
        else
          ((d.descendants place).filter fun entry => next.accepts entry.1).flatMap fun entry =>
            d.follow rest entry.2
    else
      match piece.literalText? with
      | some name => (d.lookUp? name place).toList.flatMap (d.follow rest)
      | none =>
        (d.dotSteps piece place).flatMap (d.follow rest)
          ++ ((d.children place).filter fun entry => piece.accepts entry.1).flatMap fun entry =>
            d.follow rest entry.2

end Disk

/-- The pieces of a path that is read as a pattern, a slash at the end left aside. -/
def Path.pieces (p : Path) : List String :=
  let all := if p.isAbsolute then p.rest else p.segments
  if all.getLast? = some "" then all.dropLast else all

/-- Whether a path ends with a slash, which only a directory can satisfy. -/
def Path.asksForDirectory (p : Path) : Bool := p.rest.getLast? = some ""

/-- The paths that a pattern selects on a disk; `none` if the pattern, or a piece of it by itself,
is malformed. -/
def Disk.expand? (d : Disk) (pattern : Path) : Option (List Path) := do
  let _ ← Pattern.parse? pattern.text
  let pieces ← pattern.pieces.mapM Pattern.parse?
  let start : Path := if pattern.isAbsolute then ⟨"", [""]⟩ else ⟨".", []⟩
  let found := d.follow pieces start
  return if pattern.asksForDirectory then found.filter d.isDirectory else found

end Concord
