import Concord.Json.Basic

/-!
# Severities

A rule is off, warns, or reports errors. Configuration writes a severity as a word in any mixture of
upper and lower case ASCII letters, or as a digit.
-/

namespace Concord

/-- How seriously a linter takes a rule. -/
inductive Severity where
  /-- The rule is disabled. -/
  | off
  /-- The rule warns. -/
  | warn
  /-- The rule reports errors. -/
  | error
deriving DecidableEq, Repr, Inhabited

namespace Severity

/-- The word for a severity. -/
def name : Severity → String
  | .off => "off"
  | .warn => "warn"
  | .error => "error"

/-- The severity that a word names, its letters in lower case. -/
def ofName? (name : String) : Option Severity :=
  if name = "off" then some .off
  else if name = "warn" then some .warn
  else if name = "error" then some .error
  else none

/-- The severity with a number. -/
def ofNumber? (n : UInt64) : Option Severity :=
  if n = 0 then some .off
  else if n = 1 then some .warn
  else if n = 2 then some .error
  else none

/-- The text with its ASCII letters in lower case. -/
def lowerCase (s : String) : String := String.ofList (s.toList.map Char.toLower)

/-- The severity that a configured value stands for. -/
def ofJson? : Json → Option Severity
  | .string s => ofName? (lowerCase s)
  | .number (.natural n) => ofNumber? n
  | _ => none

end Severity

end Concord
