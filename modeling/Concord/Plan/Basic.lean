import Concord.Derivation.Resolution
import Concord.Fix.Config
import Concord.Plan.Request

/-!
# Plans

A plan is everything that one run needs besides the text: the order of the passes, the options of
the formatter, and the configuration of the fixing pass unless the linter does not take the file.
-/

namespace Concord

/-- Everything that one run needs besides the text. -/
structure Plan where
  /-- The order of the passes. -/
  order : StageOrder
  /-- The configuration of the fixing pass; none if there is no such pass. -/
  fix : Option FixConfig
  /-- The options of the formatter. -/
  formatting : FormatOptions

/-- The configuration of the fixing pass over a file: none if the linter does not take it. A text
without a file is always taken. -/
def FixConfig.forFile? (c : FixConfig) : Option Path → Option FixConfig
  | none => some c
  | some file => if c.handles file then some (c.withDefaultParser file) else none

/-- The plan for a request. -/
def FormatRequest.plan (request : FormatRequest) (resolver : Resolver) (catalog : Catalog) : Plan :=
  let lint := request.lintInForce resolver
  { order := request.order
    fix := (FixConfig.ofLint lint catalog).forFile? request.file
    formatting := FormatOptions.resolve lint.rules (request.explicitOptions resolver)
      request.fallback }

end Concord
