import Concord.Path.Basic

/-!
# Trees of files

A disk is a tree of directories with files in them and without links. `Node.walk` follows the
segments of a path through it: each segment but an empty one and a single dot moves, and nothing is
entered that is not a directory. Hence a path that goes through a missing entry leads nowhere, even
if it comes back out again.
-/

namespace Concord

/-- A file or a directory. -/
inductive Node where
  /-- A file with its text; none if its bytes are not UTF-8. -/
  | file (text : Option String)
  /-- A directory with its named entries. -/
  | directory (entries : List (String × Node))

namespace Node

/-- A directory without entries. -/
def emptyDirectory : Node := .directory []

instance : Inhabited Node := ⟨emptyDirectory⟩

/-- The entries of a directory; a file has none. -/
def entries : Node → List (String × Node)
  | .directory entries => entries
  | .file _ => []

/-- The entry with a name. -/
def entry? (n : Node) (name : String) : Option Node := n.entries.lookup name

/-- The node that names lead to, one entry after another. -/
def at? (n : Node) : List String → Option Node
  | [] => some n
  | name :: rest => (n.entry? name).bind (·.at? rest)

end Node

/-- Why a path leads to nothing. -/
inductive WalkFailure where
  /-- An entry is missing. -/
  | missing
  /-- Something on the way is not a directory. -/
  | notADirectory
deriving DecidableEq, Repr

namespace Node

/-- Where segments lead from a place inside the tree, places being lists of names from the top with
the last name first. -/
def walk (tree : Node) : List String → List String → Except WalkFailure (List String)
  | place, [] => .ok place
  | place, segment :: rest =>
    match tree.at? place.reverse with
    | none => .error .missing
    | some (.file _) => .error .notADirectory
    | some (.directory entries) =>
      if segment = "" || segment = "." then walk tree place rest
      else if segment = ".." then walk tree place.tail rest
      else
        match entries.lookup segment with
        | some _ => walk tree (segment :: place) rest
        | none => .error .missing

/-! ## Changing a tree -/

/-- Entries with the node at a name replaced or added. -/
def putEntry (name : String) (node : Node) : List (String × Node) → List (String × Node)
  | [] => [(name, node)]
  | entry :: rest =>
    if entry.1 = name then (name, node) :: rest else entry :: putEntry name node rest

/-- The tree with a node at the place that names lead to; directories on the way are made. -/
def put (n : Node) (node : Node) : List String → Node
  | [] => node
  | name :: rest =>
    let below := (n.entry? name).getD emptyDirectory
    .directory (putEntry name (below.put node rest) n.entries)

/-- The tree with a directory at the place that names lead to, unless something is there. -/
def putDirectory (n : Node) (names : List String) : Node :=
  match n.at? names with
  | some (.directory _) => n
  | _ => n.put emptyDirectory names

/-- The tree without what is at the place that names lead to. -/
def remove (n : Node) : List String → Node
  | [] => n
  | [name] => .directory (n.entries.filter fun entry => entry.1 ≠ name)
  | name :: rest =>
    match n.entry? name with
    | some below => .directory (putEntry name (below.remove rest) n.entries)
    | none => n

end Node

end Concord
