import Concord.Glob.Expansion

/-!
# Targets

The files to inspect are named one by one or by patterns. `Disk.targets` puts them into the order of
their paths and keeps one of several spellings that have the same components.
-/

namespace Concord

/-- Whether a text has a character that makes it a pattern. -/
def isWild (text : String) : Bool := text.toList.any fun c => c = '*' || c = '?' || c = '['

/-- The targets that one text names in a repository. A text without special characters names a file
whether it exists or not; a pattern names the files that it selects, a malformed one none. -/
def Disk.named (d : Disk) (root : Path) (text : String) : List Path :=
  let full := root.join (.ofText text)
  if isWild text then ((d.expand? full).getD []).filter d.isFile else [full]

/-- Paths without those at the front that have the same components as `p`, and so on after each path
that remains. -/
def Path.dropSame (p : Path) : List Path → List Path
  | [] => []
  | q :: rest => if p.same q then p.dropSame rest else q :: q.dropSame rest

/-- Paths without those that have the same components as their neighbour before them. -/
def firstOfRuns : List Path → List Path
  | [] => []
  | p :: rest => p :: p.dropSame rest

/-- The targets that texts name in a repository, in the order of paths and each only once. -/
def Disk.targets (d : Disk) (root : Path) (texts : List String) : List Path :=
  firstOfRuns ((texts.flatMap (d.named root)).mergeSort Path.le)

end Concord
