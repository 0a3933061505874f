import Concord.Fix.Config
import Concord.Format.Options

/-!
# Engines

The two passes are carried out by engines that the caller provides. An engine is a function of what
it is handed; it answers with a result or with a failure of its own.
-/

namespace Concord

/-- A formatter could not make sense of its input. -/
structure FormatFailure where
  /-- What the formatter says. -/
  message : String
  /-- The line of the trouble, if it is known. -/
  line : Option Nat := none
  /-- The column of the trouble, if it is known. -/
  column : Option Nat := none
deriving DecidableEq, Repr

/-- A linter broke down. What it finds in a text is no breakdown. -/
structure LintFailure where
  /-- What the linter says. -/
  message : String
deriving DecidableEq, Repr

/-- Something a linter found and did not repair. -/
structure LintMessage where
  /-- The rule that found it, if there is one. -/
  rule : Option String
  /-- How seriously the rule is taken. -/
  severity : Severity
  /-- What the rule says. -/
  message : String
  /-- The line it concerns. -/
  line : Nat
  /-- The column it concerns. -/
  column : Nat

/-- The outcome of a fixing pass. -/
structure FixReport where
  /-- The repaired text; none if nothing was repaired. -/
  output : Option String := none
  /-- What was found and not repaired. -/
  remaining : List LintMessage := []

/-- An engine that lays texts out. -/
structure Formatter where
  /-- The text laid out with the given options. -/
  format : String → FormatOptions → Except FormatFailure String

/-- An engine that repairs texts. -/
structure Linter where
  /-- The outcome of a fixing pass over a text that belongs to a file. -/
  fix : String → Option Path → FixConfig → Except LintFailure FixReport
  /-- The rules that the engine knows. -/
  catalog : Catalog := Catalog.fallback

end Concord
