import Concord.Rule.Severity
import Concord.Json.Decode

/-!
# Rule entries

A configured rule is a severity with option values. It is written as a bare severity or as a list
whose first item is the severity. Only the first option of a rule that is on bears on formatting;
`RuleEntry.payload?` is that option.
-/

namespace Concord

/-- A configured rule. -/
structure RuleEntry where
  /-- How seriously the rule is taken. -/
  severity : Severity
  /-- The option values in written order. -/
  options : List Json
deriving Inhabited

/-- Configured rules by name. -/
abbrev RuleSet := SortedMap RuleEntry

/-- What a configured rule says to someone who looks only at its first option. -/
inductive RuleState where
  /-- The rule is off. -/
  | off
  /-- The rule is on and has no options. -/
  | bare
  /-- The rule is on and has a first option. -/
  | valued (value : Json)

namespace RuleEntry

/-- The entry that turns a rule off. -/
def off : RuleEntry := ⟨.off, []⟩

/-- Whether the rule is off. -/
def isOff (r : RuleEntry) : Bool := r.severity = .off

/-- The entry with one more option at the end. -/
def withOption (r : RuleEntry) (value : Json) : RuleEntry :=
  { r with options := r.options ++ [value] }

/-- What the entry says about its first option. -/
def state (r : RuleEntry) : RuleState :=
  if r.isOff then .off
  else
    match r.options with
    | [] => .bare
    | value :: _ => .valued value

/-- The first option of a rule that is on. -/
def payload? (r : RuleEntry) : Option Json :=
  match r.state with
  | .valued value => some value
  | _ => none

/-- The entry layered over a lower one: a bare severity keeps the lower options, an entry with
options replaces them all. -/
def mergedOnto (upper lower : RuleEntry) : RuleEntry :=
  if upper.options.isEmpty then { upper with options := lower.options } else upper

/-- The entry that a configured value describes. -/
def decode : Json → Except DecodeError RuleEntry
  | .array [] => .error .missingSeverity
  | .array (first :: options) =>
    match Severity.ofJson? first with
    | some severity => .ok ⟨severity, options⟩
    | none => .error (.unknownSeverity first)
  | value =>
    match Severity.ofJson? value with
    | some severity => .ok ⟨severity, []⟩
    | none => .error (.unknownSeverity value)

/-- The written form of an entry: a bare severity where there are no options. -/
def toJson (r : RuleEntry) : Json :=
  if r.options.isEmpty then .string r.severity.name
  else .array (.string r.severity.name :: r.options)

end RuleEntry

end Concord
