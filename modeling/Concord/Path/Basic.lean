/-!
# Paths

A path is kept as it was written, cut into segments at its slashes: joining the segments with
slashes gives the text back. What a path means is its list of components, which ignores empty
segments and, except at the very start, single dots. Nothing here looks at a disk.
-/

namespace Concord

/-- A path as written. Its text is `first` and the segments of `rest`, each after a slash; no
segment holds a slash. An absolute path has an empty first segment and at least one more. -/
structure Path where
  /-- The text before the first slash. -/
  first : String
  /-- The texts after each slash. -/
  rest : List String
deriving DecidableEq, Repr, Inhabited

/-- A part of a path that says where it leads. -/
inductive Component where
  /-- The top of all directories. -/
  | root
  /-- The directory one is in, written as the first thing in a path. -/
  | current
  /-- The directory above. -/
  | parent
  /-- An entry of a directory. -/
  | normal (name : String)
deriving DecidableEq, Repr

namespace Component

/-- How a component is written. -/
def text : Component → String
  | .root => "/"
  | .current => "."
  | .parent => ".."
  | .normal name => name

/-- The name, if the component is an entry. -/
def name? : Component → Option String
  | .normal name => some name
  | _ => none

/-- The place of each kind of component in the order of components. -/
def rank : Component → Nat
  | .root => 0
  | .current => 1
  | .parent => 2
  | .normal _ => 3

/-- The order of components: by kind, entries among themselves by name. -/
def compare (a b : Component) : Ordering :=
  match a, b with
  | .normal m, .normal n => Ord.compare m n
  | a, b => Ord.compare a.rank b.rank

end Component

namespace Path

/-- Text cut at each slash: the part before the first one and the parts after each. -/
def cut : List Char → List Char × List (List Char)
  | [] => ([], [])
  | c :: text =>
    let (head, tail) := cut text
    if c = '/' then ([], head :: tail) else (c :: head, tail)

/-- The path with a given text. -/
def ofText (text : String) : Path :=
  let (head, tail) := cut text.toList
  ⟨String.ofList head, tail.map String.ofList⟩

/-- All segments of the path. -/
def segments (p : Path) : List String := p.first :: p.rest

/-- The text of the path. -/
def text (p : Path) : String := String.intercalate "/" p.segments

/-- Whether the path starts at the top. -/
def isAbsolute (p : Path) : Bool := p.first = "" && !p.rest.isEmpty

/-- Whether the text of the path is empty. -/
def isEmpty (p : Path) : Bool := p.first = "" && p.rest.isEmpty

/-- Whether a segment beyond the first leaves one where one is. -/
def isVoid (segment : String) : Bool := segment = "" || segment = "."

/-- The component that a segment beyond the first stands for. -/
def component? (segment : String) : Option Component :=
  if isVoid segment then none
  else if segment = ".." then some .parent
  else some (.normal segment)

/-- The component that the first segment stands for. -/
def firstComponent? (p : Path) : Option Component :=
  if p.isAbsolute then some .root
  else if p.first = "." then some .current
  else component? p.first

/-- The components of the path. -/
def components (p : Path) : List Component :=
  p.firstComponent?.toList ++ p.rest.filterMap component?

/-- The names among the components. -/
def names (p : Path) : List String := p.components.filterMap Component.name?

/-- The path without its last component, unless there is none or it is the top. What stands between
the remaining components stays as written, but nothing void remains at the end. -/
def parent? (p : Path) : Option Path :=
  match p.rest.reverse.dropWhile isVoid with
  | _ :: above =>
    let rest := (above.dropWhile isVoid).reverse
    if p.first = "" && rest.isEmpty then some ⟨"", [""]⟩ else some ⟨p.first, rest⟩
  | [] => if p.first = "" then none else some ⟨"", []⟩

/-- The path, its parent, the parent of that and so on; `fuel` bounds their number. -/
def ancestorsIn : Nat → Path → List Path
  | 0, p => [p]
  | fuel + 1, p =>
    match p.parent? with
    | some q => p :: ancestorsIn fuel q
    | none => [p]

/-- The path, its parent, the parent of that and so on. Each step takes a segment away, save the one
that reaches the top or the empty path. -/
def ancestors (p : Path) : List Path := ancestorsIn (p.rest.length + 1) p

/-- The name of the entry that the path leads to, if its last component is one. -/
def fileName? (p : Path) : Option String := p.components.getLast?.bind Component.name?

/-- What follows the last dot of a name, unless there is no dot or it is the first character. -/
def extensionOf (name : String) : Option String :=
  let reversed := name.toList.reverse
  let before := reversed.dropWhile (· ≠ '.')
  if before.length ≤ 1 then none
  else some (String.ofList (reversed.takeWhile (· ≠ '.')).reverse)

/-- The extension of the entry that the path leads to. -/
def extension? (p : Path) : Option String := p.fileName?.bind extensionOf

/-- The path `q` as seen from `p`: `q` itself if it is absolute or `p` is empty, else `q` written
after `p` with one slash between. -/
def join (p q : Path) : Path :=
  if q.isAbsolute || p.isEmpty then q
  else if p.rest.getLast? = some "" then ⟨p.first, p.rest.dropLast ++ q.segments⟩
  else ⟨p.first, p.rest ++ q.segments⟩

/-- The path of an entry of the directory `p`. -/
def entry (p : Path) (name : String) : Path := p.join ⟨name, []⟩

/-- The path written with components one after another; a component that is the top starts anew. -/
def ofComponents (components : List Component) : Path :=
  components.foldl (fun p c => p.join (ofText c.text)) ⟨"", []⟩

/-- The order of paths: component by component, a shorter list first. -/
def compareComponents : List Component → List Component → Ordering
  | [], [] => .eq
  | [], _ :: _ => .lt
  | _ :: _, [] => .gt
  | a :: as, b :: bs => (a.compare b).then (compareComponents as bs)

/-- Whether a path does not come after another. -/
def le (p q : Path) : Bool := compareComponents p.components q.components ≠ .gt

/-- Whether two paths have the same components. -/
def same (p q : Path) : Bool := p.components = q.components

end Path

end Concord
