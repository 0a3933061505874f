import Concord.Inspection.Report

/-!
# Showing reports

Reports are shown as indented JSON or as lines for people, which may be coloured. Any name for the
way of showing but that of JSON means lines.
-/

namespace Concord

/-! ## JSON -/

namespace OptionsReport

/-- The report as an entry of the document on several files. -/
def toJson (r : OptionsReport) : Json :=
  .object [("file", .string r.file), ("fixStage", .bool r.fixStage),
    ("order", .string r.order.name), ("options", r.options.toJson)]

/-- The report by itself. -/
def toRecord (r : OptionsReport) : Json :=
  .object [("file", .string r.file), ("options", r.options.toJson), ("fix_stage", .bool r.fixStage),
    ("order", .string r.order.name)]

end OptionsReport

/-- The document on several files: their reports, and how many there are with and without a fixing
pass. -/
def optionsDocument (reports : List OptionsReport) : Json :=
  .object [("results", .array (reports.map (·.toJson))),
    ("summary", .object [("files", .ofNat reports.length),
      ("fixStage", .ofNat (countFixStages reports))])]

namespace FixConfigReport

/-- The document on one file's fixing pass. -/
def toJson (r : FixConfigReport) : Json :=
  .object [("file", .string r.file), ("fixStage", .bool r.fixStage),
    ("disabled", .strings r.disabled), ("config", r.config.toJson)]

/-- The report by itself. -/
def toRecord (r : FixConfigReport) : Json :=
  .object [("file", .string r.file), ("fix_stage", .bool r.fixStage),
    ("disabled", .strings r.disabled), ("config", r.config.toJson)]

end FixConfigReport

/-! ## Lines -/

/-- A way to make text stand out on a terminal. -/
inductive Emphasis where
  /-- Bold letters. -/
  | bold
  /-- Grey letters. -/
  | grey
  /-- Cyan letters. -/
  | cyan
  /-- Yellow letters. -/
  | yellow
  /-- Red letters. -/
  | red
deriving DecidableEq, Repr

namespace Emphasis

/-- The number that switches the emphasis on. -/
def on : Emphasis → String
  | .bold => "1"
  | .grey => "90"
  | .cyan => "36"
  | .yellow => "33"
  | .red => "31"

/-- The number that switches the emphasis off. -/
def off : Emphasis → String
  | .bold => "0"
  | _ => "39"

/-- A terminal sequence with a number. -/
def sequence (number : String) : String := "\x1b[" ++ number ++ "m"

/-- The text with the emphasis, if there are colours at all. -/
def apply (colours : Bool) (e : Emphasis) (text : String) : String :=
  if colours then sequence e.on ++ text ++ sequence e.off else text

end Emphasis

/-- Lines, each with its line break. -/
def linesText (lines : List String) : String := String.join (lines.map (· ++ "\n"))

/-- The line that names a file and says something about it. -/
def headLine (colours : Bool) (file note : String) : String :=
  Emphasis.bold.apply colours file ++ " " ++ Emphasis.grey.apply colours ("(" ++ note ++ ")")

/-- The lines on one file's options. -/
def OptionsReport.lines (colours : Bool) (r : OptionsReport) : List String :=
  headLine colours r.file (if r.fixStage then r.order.name else "format only")
    :: r.options.toFields.map fun (name, value) =>
      "  " ++ Emphasis.cyan.apply colours (name ++ ":") ++ " " ++ value.compact

/-- The line that sums up reports. -/
def summaryLine (reports : List OptionsReport) : String :=
  "— Summary — files=" ++ toString reports.length
    ++ " fix_stage=" ++ toString (countFixStages reports)

/-- The lines on the fixing pass over one file. -/
def FixConfigReport.lines (colours : Bool) (r : FixConfigReport) : List String :=
  let mark := Emphasis.bold.apply colours (Emphasis.yellow.apply colours "off (not fixable):")
  headLine colours r.file (if r.fixStage then "fix stage runs" else "fix stage skipped")
    :: r.disabled.map (fun name => "  " ++ mark ++ " " ++ name)
    ++ [r.config.toJson.indented]

/-! ## Either way -/

/-- The name for showing reports as JSON. -/
def jsonOutput : String := "json"

/-- Reports on options as they are shown. -/
def showOptions (output : String) (colours : Bool) (reports : List OptionsReport) : String :=
  if output = jsonOutput then linesText [(optionsDocument reports).indented]
  else
    linesText (reports.flatMap (·.lines colours)
      ++ [Emphasis.bold.apply colours (summaryLine reports)])

/-- A report on a fixing pass as it is shown. -/
def showFixConfig (output : String) (colours : Bool) (report : FixConfigReport) : String :=
  if output = jsonOutput then linesText [report.toJson.indented]
  else linesText (report.lines colours)

end Concord
