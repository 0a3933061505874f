import Concord.Lint.Override
import Concord.Lookup.Document
import Concord.Plan.Request

/-!
# Configuration around a file

Configuration is looked for in the directory of a file and in the directories above it. Linter
configuration is layered: each directory contributes one file, outer ones lie below inner ones, and
nothing is looked for above a configuration that calls itself the root. Formatter options come from
the nearest file alone.
-/

namespace Concord

/-- The names under which a directory keeps linter configuration; the first one found counts. -/
def lintFileNames : List String := [".eslintrc.json", ".eslintrc.yaml", ".eslintrc.yml"]

/-- The names under which a directory keeps formatter options; the first one found counts. -/
def formatFileNames : List String :=
  [".prettierrc", ".prettierrc.json", ".prettierrc.yaml", ".prettierrc.yml", ".prettierrc.toml"]

/-- The directory in which the search for a file's configuration starts, as seen from `base`: that
of the file, or `base` itself for a text without a file. -/
def startDirectory (base : Path) : Option Path → Path
  | some file => ((base.join file).parent?).getD base
  | none => base

/-- The directories that are searched for a file's configuration, innermost first. -/
def searchedDirectories (base : Path) (file : Option Path) : List Path :=
  (startDirectory base file).ancestors

namespace Disk

/-- The first of some names under which a directory has a file. -/
def firstFile? (d : Disk) (names : List String) (directory : Path) : Option Path :=
  (names.map directory.entry).find? d.isFile

/-- The linter configurations of directories, from the first one up to one that calls itself the
root. The first one that cannot be loaded makes the search fail. -/
def lintLayers (d : Disk) : List Path → Except LookupFailure (List LintConfig)
  | [] => .ok []
  | directory :: above =>
    match d.firstFile? lintFileNames directory with
    | none => d.lintLayers above
    | some path => do
      let config ← d.loadLintConfig path
      if config.root then return [config]
      else return config :: (← d.lintLayers above)

/-- The linter configuration around a file. -/
def lintConfigAround (d : Disk) (base : Path) (file : Option Path) :
    Except LookupFailure LintConfig :=
  (d.lintLayers (searchedDirectories base file)).map fun layers => .mergeAll layers.reverse

/-- The formatter options around a file. -/
def formatOptionsAround (d : Disk) (base : Path) (file : Option Path) :
    Except LookupFailure FormatOptions :=
  match (searchedDirectories base file).findSome? (d.firstFile? formatFileNames) with
  | some path => d.loadFormatOptions path
  | none => .ok .empty

/-- The resolver that looks around files on a disk, relative paths leading from `base`. -/
def resolver (d : Disk) (base : Path) : Resolver where
  lintConfig := d.lintConfigAround base
  formatOptions := d.formatOptionsAround base

end Disk

end Concord
