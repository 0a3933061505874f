import Concord.Format.Options
import Concord.Lint.Override
import Concord.Lookup.Failure
import Concord.Plan.Order

/-!
# Requests and resolvers

A format request names a text or a file and brings configuration of its own. A resolver finds the
configuration that surrounds a file; it may fail. `lintInForce` and `explicitOptions` combine the
two for one request, a failed look-up counting as nothing found.
-/

namespace Concord

/-- One call for formatting. -/
structure FormatRequest where
  /-- The text to format; where it is missing the file is read. -/
  text : Option String := none
  /-- The file that the text belongs to, which need not exist. -/
  file : Option Path := none
  /-- Configuration layered over what is found. -/
  lintConfig : LintConfig := {}
  /-- Formatter options that override all others. -/
  options : FormatOptions := .empty
  /-- Formatter options used where nothing else gives a value. -/
  fallback : FormatOptions := .empty
  /-- The order of the passes. -/
  order : StageOrder := .fixThenFormat

/-- Where configuration for a file is found. -/
structure Resolver where
  /-- The linter configuration around a file, its override blocks still apart. -/
  lintConfig : Option Path → Except LookupFailure LintConfig
  /-- The formatter options around a file. -/
  formatOptions : Option Path → Except LookupFailure FormatOptions

/-- The resolver that finds nothing. -/
def Resolver.nothing : Resolver := ⟨fun _ => .ok {}, fun _ => .ok .empty⟩

namespace FormatRequest

/-- The name of the option that tells the formatter which file it formats. -/
def fileOption : String := "filepath"

/-- The linter configuration in force: what is found, the request's own configuration over it, and
the override blocks that apply to the file. -/
def lintInForce (request : FormatRequest) (resolver : Resolver) : LintConfig :=
  ((orDefault (resolver.lintConfig request.file)).merge request.lintConfig).forFile request.file

/-- The option that names the file, if there is one. -/
def fileHint (request : FormatRequest) : FormatOptions :=
  match request.file with
  | some path => FormatOptions.empty.set fileOption (.string path.text)
  | none => .empty

/-- The explicit formatter options: the file hint, what is found over it, the request's own over
both. -/
def explicitOptions (request : FormatRequest) (resolver : Resolver) : FormatOptions :=
  (request.fileHint.overlay (orDefault (resolver.formatOptions request.file))).overlay
    request.options

end FormatRequest

end Concord
