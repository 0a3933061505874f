/-!
# The order of the two passes

A text is repaired by a linter and laid out by a formatter. Either may come first.
-/

namespace Concord

/-- One of the two passes over a text. -/
inductive Stage where
  /-- The linter repairs the text. -/
  | fix
  /-- The formatter lays the text out. -/
  | format
deriving DecidableEq, Repr

/-- Which pass comes first. -/
inductive StageOrder where
  /-- The linter comes first. -/
  | fixThenFormat
  /-- The formatter comes first. -/
  | formatThenFix
deriving DecidableEq, Repr

namespace StageOrder

instance : Inhabited StageOrder := ⟨.fixThenFormat⟩

/-- The name of an order. -/
def name : StageOrder → String
  | .fixThenFormat => "fix-then-format"
  | .formatThenFix => "format-then-fix"

/-- The order with a name. -/
def ofName? (name : String) : Option StageOrder :=
  if name = "fix-then-format" then some .fixThenFormat
  else if name = "format-then-fix" then some .formatThenFix
  else none

/-- The passes in their order. -/
def stages : StageOrder → List Stage
  | .fixThenFormat => [.fix, .format]
  | .formatThenFix => [.format, .fix]

end StageOrder

end Concord
