import Concord.Derivation.Derived
import Concord.Derivation.Family
import Concord.Rule.Entry

/-!
# The table from rules to options

Each formatter option has one line in the table: `FormatOption.extract` says from which rule, and
from which part of its first option, a raw value is taken, and `FormatOption.normalize` says what
that value means to the formatter. `FormatOption.derive` is the two together.
-/

namespace Concord

/-! ## The inspected rules -/

namespace RuleName

/-- The rule whose option is itself an object of formatter options. -/
def formatter : String := "prettier/prettier"

/-- The rule about long lines. -/
def maxLen : String := "max-len"

/-- The rule about indentation. -/
def indent : String := "indent"

/-- The rule about quotes. -/
def quotes : String := "quotes"

/-- The rule about trailing commas. -/
def commaDangle : String := "comma-dangle"

/-- The rule about blanks inside braces. -/
def objectCurlySpacing : String := "object-curly-spacing"

/-- The rule about semicolons. -/
def semi : String := "semi"

/-- The rule about the closing bracket of an element. -/
def closingBracket : String := "react/jsx-closing-bracket-location"

/-- The rule about arrow parentheses. -/
def arrowParens : String := "arrow-parens"

end RuleName

/-! ## Extraction -/

/-- Which part of a rule's first option is read. -/
inductive ValuePart where
  /-- A text, a number or a truth value. -/
  | primitive
  /-- The option as it is. -/
  | whole
  /-- A field of a structured option; another option stands for the field. -/
  | field (name : String)
  /-- A field of an object; nothing else counts. -/
  | ownField (name : String)

/-- The part of an option value; `null` has none. -/
def ValuePart.of? (part : ValuePart) (v : Json) : Option Json :=
  if v.isNull then none
  else
    match part with
    | .primitive => if v.isStructured then none else some v
    | .whole => some v
    | .field name => if v.isStructured then v.field? name else some v
    | .ownField name => v.field? name

/-- What a rule says in a part of its first option. -/
def RuleSet.valueOf (rules : RuleSet) (name : String) (part : ValuePart) : Derived Json :=
  match rules.find? name with
  | none => .notConfigured
  | some rule =>
    match rule.state with
    | .off => .disabled
    | .bare => .notConfigured
    | .valued v =>
      match part.of? v with
      | some value => .concrete value
      | none => .notConfigured

/-- The raw indentation width: that of the indentation rule, unless it asks for tabs, in which case
the rule about long lines says how wide a tab is. -/
def RuleSet.indentationWidth (rules : RuleSet) : Derived Json :=
  match rules.valueOf RuleName.indent .primitive with
  | .concrete (.string s) =>
    if s = "tab" then rules.valueOf RuleName.maxLen (.ownField "tabWidth")
    else .concrete (.string s)
  | raw => raw

/-- The raw value that rules hold for an option. -/
def FormatOption.extract (o : FormatOption) (rules : RuleSet) : Derived Json :=
  match o with
  | .printWidth => rules.valueOf RuleName.maxLen (.field "code")
  | .tabWidth => rules.indentationWidth
  | .singleQuote => rules.valueOf RuleName.quotes .primitive
  | .trailingComma => rules.valueOf RuleName.commaDangle .whole
  | .bracketSpacing => rules.valueOf RuleName.objectCurlySpacing .primitive
  | .semi => rules.valueOf RuleName.semi .primitive
  | .useTabs => rules.valueOf RuleName.indent .primitive
  | .jsxBracketSameLine => rules.valueOf RuleName.closingBracket (.field "nonEmpty")
  | .arrowParens => rules.valueOf RuleName.arrowParens .primitive

/-! ## Meaning of raw values -/

/-- A number of columns. -/
def widthOf (v : Json) : Option FormatValue :=
  match Indentation.read? v with
  | some (.spaces columns) => some (.width columns)
  | _ => none

/-- Whether quotes are single: a quote style, or a truth value as it is. -/
def singleQuoteOf (v : Json) : Option FormatValue :=
  match QuoteStyle.read? v with
  | some style => some (.flag (style = .single))
  | none => v.bool?.map .flag

/-- A choice of trailing commas. -/
def trailingCommaOf (v : Json) : Option FormatValue :=
  (CommaDangle.read? v).map fun choice => .trailingComma choice.toTrailingComma

/-- A switch, or a truth value as it is. -/
def toggleOf (v : Json) : Option FormatValue :=
  match Toggle.read? v with
  | some toggle => some (.flag (toggle = .always))
  | none => v.bool?.map .flag

/-- Whether tabs indent; a number of blanks says nothing about it. -/
def useTabsOf (v : Json) : Option FormatValue :=
  match Indentation.read? v with
  | some .tab => some (.flag true)
  | _ => none

/-- Whether the bracket follows the last attribute: a place for it, or a truth value as it is. -/
def bracketSameLineOf (v : Json) : Option FormatValue :=
  match ClosingBracket.read? v with
  | some place => some (.flag (place = .afterProps))
  | none => v.bool?.map .flag

/-- A choice of arrow parentheses. -/
def arrowParensOf (v : Json) : Option FormatValue :=
  match ArrowStyle.read? v with
  | some .asNeeded => some (.arrowParens .avoid)
  | some .always => some (.arrowParens .always)
  | none => none

/-- What a raw value means for an option, if it means anything. -/
def FormatOption.meaning (o : FormatOption) : Json → Option FormatValue :=
  match o with
  | .printWidth | .tabWidth => widthOf
  | .singleQuote => singleQuoteOf
  | .trailingComma => trailingCommaOf
  | .bracketSpacing | .semi => toggleOf
  | .useTabs => useTabsOf
  | .jsxBracketSameLine => bracketSameLineOf
  | .arrowParens => arrowParensOf

/-- The formatter's value for a raw one. -/
def FormatOption.normalize (o : FormatOption) (raw : Derived Json) : Derived FormatValue :=
  raw.andThen o.meaning

/-- The value that rules alone give an option. -/
def FormatOption.derive (o : FormatOption) (rules : RuleSet) : Derived FormatValue :=
  o.normalize (o.extract rules)

end Concord
