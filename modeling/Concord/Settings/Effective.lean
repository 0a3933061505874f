import Concord.Disk.Basic
import Concord.Format.Options
import Concord.Settings.Document

/-!
# Settings in effect

The repository is the nearest directory, from a start upwards, with a settings file or the data of
version control in it. What the caller chooses comes before what the settings say, and defaults come
last. Settings that cannot be read count as if there were none.
-/

namespace Concord

/-- The names under which a repository keeps its settings; the first one that exists counts. -/
def settingsFileNames : List String := ["lintfmt.toml", "lintfmt.yaml", "lintfmt.yml"]

/-- The names that mark a directory as a repository. -/
def repositoryMarks : List String := settingsFileNames ++ [".git"]

namespace Disk

/-- Whether a directory is marked as a repository. -/
def isRepository (d : Disk) (directory : Path) : Bool :=
  repositoryMarks.any fun name => d.pathExists (directory.entry name)

/-- The repository around a start: the nearest marked directory, or the start itself if none is
marked. -/
def repositoryRoot (d : Disk) (start : Path) : Path :=
  (start.ancestors.find? d.isRepository).getD start

/-- The settings in a file; none if it cannot be read or makes no sense. -/
def settingsIn? (d : Disk) (file : Path) : Option Settings :=
  match d.readText file with
  | .error _ => none
  | .ok text =>
    if file.extension? = some "toml" then Settings.ofToml? text else Settings.ofYaml? text

/-- The settings of a repository; none if there is no file or the one that counts is spoilt. -/
def settings? (d : Disk) (root : Path) : Option Settings :=
  ((settingsFileNames.map root.entry).find? d.pathExists).bind d.settingsIn?

end Disk

/-- What a caller chooses. -/
structure Choices where
  /-- Where to look for the repository. -/
  start : Option String := none
  /-- How reports are shown. -/
  output : Option String := none
  /-- The order of the passes. -/
  order : Option StageOrder := none
  /-- Where the catalog of rules is kept, as seen from the working directory. -/
  catalog : Option String := none

/-- Settings with nothing left open. -/
structure Effective where
  /-- The repository. -/
  root : Path
  /-- How reports are shown. -/
  output : String
  /-- The order of the passes. -/
  order : StageOrder
  /-- Where the catalog of rules is kept, if one is chosen. -/
  catalog : Option Path
  /-- Formatter options for what nothing else decides. -/
  fallback : FormatOptions
  /-- The extensions of linted files, if they are chosen. -/
  extensions : Option (List String)

/-- How reports are shown where nobody chooses. -/
def defaultOutput : String := "human"

/-- Choices filled up from settings for a repository, and from defaults. -/
def Choices.fill (c : Choices) (root : Path) (s : Settings) : Effective where
  root := root
  output := (c.output.or s.output).getD defaultOutput
  order := (c.order.or s.order).getD default
  catalog := (c.catalog.map Path.ofText).or (s.catalog.map fun name => root.join (.ofText name))
  fallback := (s.fallback.map FormatOptions.ofMap).getD .empty
  extensions := s.extensions

/-- What is in effect for a caller's choices. The search starts in the working directory if the
caller does not say where. -/
def Disk.effective (d : Disk) (c : Choices) : Effective :=
  let root := d.repositoryRoot (Path.ofText (c.start.getD "."))
  c.fill root ((d.settings? root).getD {})

end Concord
