import Concord.Catalog.Basic
import Concord.Lint.Config
import Concord.Path.Basic

/-!
# The configuration of the fixing pass

The pass that lets a linter repair a text is configured from the linter configuration in force. A
rule that the catalog knows to be unfixable cannot change the text and is turned off; all other
rules, also those the catalog does not list, stay as they are.
-/

namespace Concord

/-- What a linter is handed for a fixing pass. -/
structure FixConfig where
  /-- Whether the linter may look for configuration by itself. -/
  discoverConfig : Bool
  /-- Whether the linter repairs what it finds. -/
  fix : Bool
  /-- The rules of the pass. -/
  rules : RuleSet
  /-- Values shared by rules. -/
  settings : OrderedMap Json
  /-- The globals, each declared with its access. -/
  globals : List String
  /-- The environments that are switched on or off. -/
  env : SortedMap Bool
  /-- The plugins. -/
  plugins : List String
  /-- The parser, if one is chosen. -/
  parser : Option String
  /-- Options for the parser. -/
  parserOptions : OrderedMap Json
  /-- The extensions of linted files. -/
  extensions : List String

/-- The names of the configured rules that the fixing pass turns off. -/
def LintConfig.unfixableRules (c : LintConfig) (catalog : Catalog) : List String :=
  c.rules.keys.filter catalog.isKnownUnfixable

namespace FixConfig

/-- The configuration of the fixing pass. The linter is told not to look for other configuration,
since this one is complete. -/
def ofLint (c : LintConfig) (catalog : Catalog) : FixConfig where
  discoverConfig := false
  fix := true
  rules := c.rules.mapEntries fun name rule =>
    if catalog.isKnownUnfixable name then .off else rule
  settings := c.settings
  globals := c.declarations
  env := c.env
  plugins := c.plugins
  parser := c.parser
  parserOptions := c.parserOptions
  extensions := c.effectiveExtensions

/-- A file's extension with its dot; the empty text for a file without one. -/
def dottedExtension (file : Path) : String :=
  match file.extension? with
  | some e => "." ++ e
  | none => ""

/-- Whether the linter takes a file, by its extension. -/
def handles (c : FixConfig) (file : Path) : Bool := c.extensions.contains (dottedExtension file)

/-- The parser for the extensions that need one of their own. -/
def parserFor? (file : Path) : Option String :=
  match file.extension? with
  | some "ts" => some "@typescript-eslint/parser"
  | some "tsx" => some "@typescript-eslint/parser"
  | some "vue" => some "vue-eslint-parser"
  | _ => none

/-- The configuration with a parser for the file where none was chosen. -/
def withDefaultParser (c : FixConfig) (file : Path) : FixConfig :=
  { c with parser := c.parser.or (parserFor? file) }

/-- The written form of the configuration. -/
def toJson (c : FixConfig) : Json :=
  .object <|
    [("discoverConfig", .bool c.discoverConfig), ("fix", .bool c.fix),
      ("rules", Json.ofSortedMap RuleEntry.toJson c.rules),
      ("settings", Json.ofOrderedMap c.settings), ("globals", Json.strings c.globals),
      ("env", Json.ofSortedMap Json.bool c.env), ("plugins", Json.strings c.plugins)]
    ++ (c.parser.map fun p => ("parser", Json.string p)).toList
    ++ [("parserOptions", Json.ofOrderedMap c.parserOptions),
      ("extensions", Json.strings c.extensions)]

end FixConfig

end Concord
