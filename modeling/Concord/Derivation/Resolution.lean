import Concord.Derivation.Table
import Concord.Format.Options

/-!
# Resolving the options of one run

The value of an option comes from the first source that has one: the explicit options, the object of
options embedded in the formatter rule, the value derived from rules, the fallback options. Options
that merely pass through come from the first two alone.
-/

namespace Concord

/-- The options embedded in the formatter rule, if it is on and its value is an object. -/
def RuleSet.embedded? (rules : RuleSet) : Option FormatOptions :=
  match rules.valueOf RuleName.formatter .whole with
  | .concrete (.object fields) => some (FormatOptions.ofFields fields)
  | _ => none

/-- Explicit options over the embedded ones. -/
def FormatOptions.given (rules : RuleSet) (explicit : FormatOptions) : FormatOptions :=
  (rules.embedded?.getD .empty).overlay explicit

/-- The value of an option that nobody gave: derived from rules, else the fallback. -/
def FormatOption.inferred (rules : RuleSet) (fallback : FormatOptions) (o : FormatOption) :
    Option FormatValue :=
  (o.derive rules).value?.or (fallback.get? o)

/-- The options handed to the formatter. -/
def FormatOptions.resolve (rules : RuleSet) (explicit fallback : FormatOptions) : FormatOptions :=
  let given := FormatOptions.given rules explicit
  FormatOption.all.foldl
    (fun out key =>
      if given.contains key then out
      else
        match key.inferred rules fallback with
        | some value => out.insert key value
        | none => out)
    given

end Concord
