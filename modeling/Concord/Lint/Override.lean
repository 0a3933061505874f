import Concord.Glob.Pattern
import Concord.Lint.Config

/-!
# The configuration of one file

For one file the override blocks whose scope it is in are merged, in order, onto the settings, each
block flattened first in the same way. `LintConfig.applicable` lists the settings that come to bear,
outer ones before those within.
-/

namespace Concord

/-- Whether a file is in a scope. -/
def Scope.covers (s : Scope) (file : Path) : Bool :=
  file.selectedByAny s.files && !file.selectedByAny s.excluded

mutual

/-- A block's configuration with the blocks within merged into it where they apply. -/
def OverrideBlock.flatten (file : Path) : OverrideBlock → LintConfig
  | .mk _ settings blocks => flattenOnto file blocks { settings with }

/-- A configuration with those blocks of a list merged onto it that apply. -/
def flattenOnto (file : Path) : List OverrideBlock → LintConfig → LintConfig
  | [], config => config
  | block :: rest, config =>
    flattenOnto file rest <|
      if block.scope.covers file then config.merge (block.flatten file) else config

end

mutual

/-- The settings of a block and of the blocks within that apply, the block's own first. -/
def OverrideBlock.applicable (file : Path) : OverrideBlock → List LintSettings
  | .mk _ settings blocks => settings :: applicableAll file blocks

/-- The settings of those blocks of a list that apply, in order. -/
def applicableAll (file : Path) : List OverrideBlock → List LintSettings
  | [] => []
  | block :: rest =>
    (if block.scope.covers file then block.applicable file else []) ++ applicableAll file rest

end

namespace LintConfig

/-- The configuration without its override blocks. -/
def base (c : LintConfig) : LintConfig := { c with overrides := [] }

/-- The settings of all override blocks that apply to a file, in the order in which they count. -/
def applicable (c : LintConfig) (file : Path) : List LintSettings :=
  applicableAll file c.overrides

/-- The configuration of one file; no override block applies to a text without a file. -/
def forFile (c : LintConfig) : Option Path → LintConfig
  | none => c.base
  | some file => flattenOnto file c.overrides c.base

end LintConfig

end Concord
