import Concord.Lint.Access
import Concord.Rule.Entry

/-!
# Linter configuration

A configuration consists of settings and of override blocks. A block has a scope of files, settings
of its own and, since it is a configuration too, blocks within. Layering one configuration over
another goes field by field: rules merge name by name, maps key by key, plugins are collected, and a
parser or a list of extensions is replaced where the upper layer has one.
-/

namespace Concord

/-- The settings of a configuration, apart from override blocks. -/
structure LintSettings where
  /-- Whether the search for configuration in directories above ends here. -/
  root : Bool := false
  /-- The configured rules. -/
  rules : RuleSet := .empty
  /-- Values shared by rules. -/
  settings : OrderedMap Json := .empty
  /-- The declared globals. -/
  globals : SortedMap GlobalAccess := .empty
  /-- The environments that are switched on or off. -/
  env : SortedMap Bool := .empty
  /-- The plugins, first mentioned first. -/
  plugins : List String := []
  /-- The parser, if one is chosen. -/
  parser : Option String := none
  /-- Options for the parser. -/
  parserOptions : OrderedMap Json := .empty
  /-- The extensions of the files that are linted, if they are chosen. -/
  extensions : Option (List String) := none

/-- The files to which an override block applies. -/
structure Scope where
  /-- Patterns of files inside the scope. -/
  files : List String := []
  /-- Patterns of files that are excluded again. -/
  excluded : List String := []
deriving DecidableEq, Repr

/-- Configuration for the files of a scope, with blocks of its own. -/
inductive OverrideBlock where
  /-- A block with its scope, its settings and the blocks within. -/
  | mk (scope : Scope) (settings : LintSettings) (blocks : List OverrideBlock)

/-- A linter configuration. -/
structure LintConfig extends LintSettings where
  /-- The override blocks, each layered over those before. -/
  overrides : List OverrideBlock := []

/-- The scope of a block. -/
def OverrideBlock.scope : OverrideBlock → Scope
  | .mk scope _ _ => scope

instance : Inhabited LintConfig := ⟨{}⟩

/-! ## Layering -/

/-- Settings layered over lower ones. -/
def LintSettings.merge (lower upper : LintSettings) : LintSettings where
  root := lower.root || upper.root
  rules := lower.rules.overlayWith RuleEntry.mergedOnto upper.rules
  settings := lower.settings.overlay upper.settings
  globals := lower.globals.overlay upper.globals
  env := lower.env.overlay upper.env
  plugins := collect lower.plugins upper.plugins
  parser := upper.parser.or lower.parser
  parserOptions := lower.parserOptions.overlay upper.parserOptions
  extensions := upper.extensions.or lower.extensions

namespace LintConfig

/-- A configuration layered over a lower one; the blocks of both are kept in order. -/
def merge (lower upper : LintConfig) : LintConfig where
  toLintSettings := lower.toLintSettings.merge upper.toLintSettings
  overrides := lower.overrides ++ upper.overrides

/-- Layers merged onto the default configuration, lowest first. -/
def mergeAll (layers : List LintConfig) : LintConfig := layers.foldl merge {}

/-- The extensions of linted files where none are chosen. -/
def defaultExtensions : List String := [".js", ".jsx", ".ts", ".tsx", ".mjs", ".vue"]

/-- The extensions of linted files. -/
def effectiveExtensions (c : LintConfig) : List String := c.extensions.getD defaultExtensions

/-- A declaration of a global with its access. -/
def declaration (name : String) (access : GlobalAccess) : String := name ++ ":" ++ access.name

/-- The declarations of all globals in the order of their names. -/
def declarations (c : LintConfig) : List String :=
  c.globals.entries.map fun entry => declaration entry.1 entry.2

end LintConfig

end Concord
