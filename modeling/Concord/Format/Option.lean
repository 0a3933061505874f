import Concord.Json.Basic

/-!
# Formatter options that rules can drive

Nine options of the formatter have counterparts among linter rules. Each has its own kind of value;
`FormatOption.read?` says which JSON values it accepts, and `FormatValue.toJson` writes them back.
-/

namespace Concord

/-- A formatter option with a counterpart among linter rules, named as the formatter names it. -/
inductive FormatOption where
  /-- The column at which lines are wrapped. -/
  | printWidth
  /-- The columns of one indentation step. -/
  | tabWidth
  /-- Whether texts are quoted with single quotes. -/
  | singleQuote
  /-- Where trailing commas are written. -/
  | trailingComma
  /-- Whether object braces have blanks inside. -/
  | bracketSpacing
  /-- Whether statements end in semicolons. -/
  | semi
  /-- Whether indentation uses tabs. -/
  | useTabs
  /-- Whether the bracket that ends an element's attributes stands on the line of the last one. -/
  | jsxBracketSameLine
  /-- Whether a sole arrow parameter is parenthesised. -/
  | arrowParens
deriving DecidableEq, Repr, Inhabited

/-- Where trailing commas are written. -/
inductive TrailingComma where
  /-- Nowhere. -/
  | none
  /-- In lists and objects. -/
  | es5
  /-- Wherever they are allowed, parameters included. -/
  | all
deriving DecidableEq, Repr, Inhabited

/-- When a sole arrow parameter is parenthesised. -/
inductive ArrowParens where
  /-- Only where it must be. -/
  | avoid
  /-- Always. -/
  | always
deriving DecidableEq, Repr, Inhabited

/-- The value of a formatter option. -/
inductive FormatValue where
  /-- A choice of yes or no. -/
  | flag (b : Bool)
  /-- A number of columns. -/
  | width (columns : UInt32)
  /-- A choice of trailing commas. -/
  | trailingComma (t : TrailingComma)
  /-- A choice of arrow parentheses. -/
  | arrowParens (a : ArrowParens)
deriving DecidableEq, Repr

namespace TrailingComma

/-- The word for a choice. -/
def name : TrailingComma → String
  | .none => "none"
  | .es5 => "es5"
  | .all => "all"

/-- The choice that a word names. -/
def ofName? (name : String) : Option TrailingComma :=
  if name = "none" then some .none
  else if name = "es5" then some .es5
  else if name = "all" then some .all
  else Option.none

end TrailingComma

namespace ArrowParens

/-- The word for a choice. -/
def name : ArrowParens → String
  | .avoid => "avoid"
  | .always => "always"

/-- The choice that a word names. -/
def ofName? (name : String) : Option ArrowParens :=
  if name = "avoid" then some .avoid
  else if name = "always" then some .always
  else none

end ArrowParens

/-- The JSON value that the formatter is handed. -/
def FormatValue.toJson : FormatValue → Json
  | .flag b => .bool b
  | .width columns => .number (.natural columns.toUInt64)
  | .trailingComma t => .string t.name
  | .arrowParens a => .string a.name

namespace FormatOption

/-- Every option, in the order in which options are listed. -/
def all : List FormatOption :=
  [.printWidth, .tabWidth, .singleQuote, .trailingComma, .bracketSpacing, .semi, .useTabs,
    .jsxBracketSameLine, .arrowParens]

/-- The formatter's name for an option. -/
def name : FormatOption → String
  | .printWidth => "printWidth"
  | .tabWidth => "tabWidth"
  | .singleQuote => "singleQuote"
  | .trailingComma => "trailingComma"
  | .bracketSpacing => "bracketSpacing"
  | .semi => "semi"
  | .useTabs => "useTabs"
  | .jsxBracketSameLine => "jsxBracketSameLine"
  | .arrowParens => "arrowParens"

/-- The option with a name. -/
def ofName? (name : String) : Option FormatOption := all.find? fun o => o.name = name

/-- The value that a JSON value gives an option; `none` where the option has no use for it. -/
def read? (o : FormatOption) (v : Json) : Option FormatValue :=
  match o with
  | .printWidth | .tabWidth => v.natural32?.map .width
  | .singleQuote | .bracketSpacing | .semi | .useTabs | .jsxBracketSameLine => v.bool?.map .flag
  | .trailingComma => (v.string?.bind TrailingComma.ofName?).map .trailingComma
  | .arrowParens => (v.string?.bind ArrowParens.ofName?).map .arrowParens

end FormatOption

end Concord
