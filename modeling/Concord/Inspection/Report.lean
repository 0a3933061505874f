import Concord.Path.Relative
import Concord.Plan.Basic

/-!
# Reports

A report says what a run would do to one file: the options that the formatter would be handed, or
the configuration of the fixing pass with the rules that it turns off. No text is read for it.
-/

namespace Concord

/-- What the formatter would be handed for a file. -/
structure OptionsReport where
  /-- The file as it is shown. -/
  file : String
  /-- The options of the formatter. -/
  options : FormatOptions
  /-- Whether there is a fixing pass. -/
  fixStage : Bool
  /-- The order of the passes. -/
  order : StageOrder

/-- What the linter would be handed for a file. -/
structure FixConfigReport where
  /-- The file as it is shown. -/
  file : String
  /-- Whether there is a fixing pass. -/
  fixStage : Bool
  /-- The rules that are turned off because they repair nothing. -/
  disabled : List String
  /-- The configuration of the fixing pass. -/
  config : FixConfig

namespace FormatRequest

/-- The request for another file. -/
def forFile (template : FormatRequest) (file : Path) : FormatRequest :=
  { template with file := some file }

/-- The report on a file's options, the file being shown as seen from `root`. -/
def optionsReport (template : FormatRequest) (root : Path) (resolver : Resolver)
    (catalog : Catalog) (file : Path) : OptionsReport :=
  let plan := (template.forFile file).plan resolver catalog
  { file := file.shownFrom root
    options := plan.formatting
    fixStage := plan.fix.isSome
    order := plan.order }

/-- The reports on targets, in the order of the files as they are shown. -/
def optionsReports (template : FormatRequest) (root : Path) (resolver : Resolver)
    (catalog : Catalog) (targets : List Path) : List OptionsReport :=
  (targets.map (template.optionsReport root resolver catalog)).mergeSort
    fun a b => !decide (b.file < a.file)

/-- The report on the fixing pass over a file. -/
def fixConfigReport (template : FormatRequest) (root : Path) (resolver : Resolver)
    (catalog : Catalog) (file : Path) : FixConfigReport :=
  let lint := (template.forFile file).lintInForce resolver
  let config := FixConfig.ofLint lint catalog
  { file := file.shownFrom root
    fixStage := config.handles file
    disabled := lint.unfixableRules catalog
    config := config.withDefaultParser file }

end FormatRequest

/-- How many of some reports are on files with a fixing pass. -/
def countFixStages (reports : List OptionsReport) : Nat := reports.countP (·.fixStage)

end Concord
