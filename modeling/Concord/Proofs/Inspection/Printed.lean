import Concord.Inspection.Rendering

/-!
# What is printed of reports

Reports are printed as one JSON document, or else as lines for people (`Printed`). What the lines
say is a list of remarks, and a remark has one form with colours and one without (`Remark.line`).
For every way of showing, with colours or without, the text that is printed is the one described
here and no other (`showOptions_eq_iff`, `showFixConfig_eq_iff`).
-/

namespace Concord

/-! ## Remarks -/

/-- What is said about reports in lines for people. -/
inductive Remark where
  /-- What happens to a file. -/
  | file (name note : String)
  /-- A formatter option has a value. -/
  | option (name : String) (value : Json)
  /-- A rule is turned off because it repairs nothing. -/
  | unfixable (rule : String)
  /-- There are that many files, and that many of them have a fixing pass. -/
  | summary (files fixStages : Nat)
  /-- The linter is handed a configuration. -/
  | configuration (config : FixConfig)

namespace Remark

/-- The remark as it is printed without colours. -/
def plain : Remark → String
  | .file name note => name ++ " (" ++ note ++ ")"
  | .option name value => "  " ++ name ++ ": " ++ value.compact
  | .unfixable rule => "  off (not fixable): " ++ rule
  | .summary files fixStages =>
    "— Summary — files=" ++ toString files ++ " fix_stage=" ++ toString fixStages
  | .configuration config => config.toJson.indented

/-- The remark as it is printed with colours. The names of files and the summary are bold, notes are
grey and the names of options cyan; that a rule is turned off stands in bold yellow. -/
def coloured : Remark → String
  | .file name note => "\x1b[1m" ++ name ++ "\x1b[0m \x1b[90m(" ++ note ++ ")\x1b[39m"
  | .option name value => "  \x1b[36m" ++ name ++ ":\x1b[39m " ++ value.compact
  | .unfixable rule => "  \x1b[1m\x1b[33moff (not fixable):\x1b[39m\x1b[0m " ++ rule
  | .summary files fixStages =>
    "\x1b[1m— Summary — files=" ++ toString files ++ " fix_stage=" ++ toString fixStages
      ++ "\x1b[0m"
  | .configuration config => config.toJson.indented

/-- The remark as it is printed. -/
def line (colours : Bool) (remark : Remark) : String :=
  if colours then remark.coloured else remark.plain

/-- Remarks as they are printed, each on lines of its own. -/
def text (colours : Bool) (remarks : List Remark) : String :=
  String.join (remarks.map fun remark => remark.line colours ++ "\n")

/-! The lines that are put together from marked parts are those of the remarks. The literal texts of
a remark are taken apart first, since equal texts need not be put together in the same way. -/

variable (colours : Bool)

theorem line_file (name note : String) :
    (file name note).line colours = headLine colours name note := by
  cases colours with
  | false =>
    show name ++ (" " ++ "(") ++ note ++ ")" = name ++ " " ++ ("(" ++ note ++ ")")
    simp only [String.append_assoc]
  | true =>
    show "\x1b[1m" ++ name ++ ("\x1b[0m" ++ " " ++ "\x1b[90m" ++ "(") ++ note ++
        (")" ++ "\x1b[39m") =
      "\x1b[1m" ++ name ++ "\x1b[0m" ++ " " ++ ("\x1b[90m" ++ ("(" ++ note ++ ")") ++ "\x1b[39m")
    simp only [String.append_assoc]

theorem line_option (name : String) (value : Json) : (option name value).line colours =
    "  " ++ Emphasis.cyan.apply colours (name ++ ":") ++ " " ++ value.compact := by
  cases colours with
  | false =>
    show "  " ++ name ++ (":" ++ " ") ++ value.compact =
      "  " ++ (name ++ ":") ++ " " ++ value.compact
    simp only [String.append_assoc]
  | true =>
    show ("  " ++ "\x1b[36m") ++ name ++ (":" ++ "\x1b[39m" ++ " ") ++ value.compact =
      "  " ++ ("\x1b[36m" ++ (name ++ ":") ++ "\x1b[39m") ++ " " ++ value.compact
    simp only [String.append_assoc]

/-- A rule that is turned off stands on a line of its own. -/
theorem line_unfixable (rule : String) : (unfixable rule).line colours =
    "  " ++ Emphasis.bold.apply colours (Emphasis.yellow.apply colours "off (not fixable):") ++ " "
      ++ rule := by
  cases colours <;> rfl

/-- The counts of the summary are those of the reports. -/
theorem line_summary (reports : List OptionsReport) :
    (summary reports.length (reports.filter (·.fixStage)).length).line colours =
      Emphasis.bold.apply colours (summaryLine reports) := by
  rw [← List.countP_eq_length_filter]
  cases colours with
  | false => rfl
  | true =>
    show ("\x1b[1m" ++ "— Summary — files=") ++ toString reports.length ++ " fix_stage=" ++
        toString (countFixStages reports) ++ "\x1b[0m" =
      "\x1b[1m" ++ ("— Summary — files=" ++ toString reports.length ++ " fix_stage=" ++
        toString (countFixStages reports)) ++ "\x1b[0m"
    simp only [String.append_assoc]

end Remark

/-- A text is what is printed of reports: for JSON their document, otherwise the remarks on them. -/
structure Printed (output : String) (colours : Bool) (document : Json) (remarks : List Remark)
    (text : String) : Prop where
  json : output = "json" → text = document.indented ++ "\n"
  lines : output ≠ "json" → text = Remark.text colours remarks

/-- One text is printed of a document and remarks. -/
theorem printed_iff {output : String} {colours : Bool} {document : Json} {remarks : List Remark}
    {text : String} : Printed output colours document remarks text ↔
      (if output = jsonOutput then linesText [document.indented]
        else linesText (remarks.map (Remark.line colours))) = text := by
  have hdocument : linesText [document.indented] = document.indented ++ "\n" := rfl
  have hremarks : linesText (remarks.map (Remark.line colours)) = Remark.text colours remarks := by
    rw [linesText, List.map_map]
    rfl
  rw [hdocument, hremarks]
  constructor
  · intro h
    split
    · next houtput => exact (h.json houtput).symm
    · next houtput => exact (h.lines houtput).symm
  · rintro rfl
    exact ⟨fun houtput => if_pos houtput, fun houtput => if_neg houtput⟩

/-! ## Reports on options -/

namespace OptionsReport

/-- The word for the order of the passes. -/
def orderWord (r : OptionsReport) : String :=
  if r.order = .fixThenFormat then "fix-then-format" else "format-then-fix"

/-- The remarks on the options for one file. -/
def remarks (r : OptionsReport) : List Remark :=
  .file r.file (if r.fixStage then r.orderWord else "format only")
    :: r.options.toFields.map fun (name, value) => .option name value

theorem name_order (r : OptionsReport) : r.order.name = r.orderWord := by
  unfold orderWord
  cases r.order <;> rfl

/-- The lines on one file say what the remarks on it say. -/
theorem lines_eq (colours : Bool) (r : OptionsReport) :
    r.lines colours = r.remarks.map (Remark.line colours) := by
  rw [lines, remarks, List.map_cons, List.map_map, Remark.line_file, name_order]
  congr 1
  refine List.map_congr_left fun entry _ => ?_
  exact (Remark.line_option colours entry.1 entry.2).symm

end OptionsReport

/-- What is printed of reports on options: a document with an entry for each report and a summary,
or the remarks on each report and a summary. -/
def OptionsPrinted (output : String) (colours : Bool) (reports : List OptionsReport)
    (text : String) : Prop :=
  Printed output colours
    (.object
      [("results", .array (reports.map fun r => .object
        [("file", .string r.file), ("fixStage", .bool r.fixStage), ("order", .string r.orderWord),
          ("options", .object r.options.toFields)])),
        ("summary", .object [("files", .ofNat reports.length),
          ("fixStage", .ofNat (reports.filter (·.fixStage)).length)])])
    (reports.flatMap OptionsReport.remarks
      ++ [.summary reports.length (reports.filter (·.fixStage)).length])
    text

variable {output : String} {colours : Bool} {text : String}

/-- What is printed of reports on options is this text and no other. -/
theorem showOptions_eq_iff {reports : List OptionsReport} :
    showOptions output colours reports = text ↔ OptionsPrinted output colours reports text := by
  rw [OptionsPrinted, printed_iff, List.map_append, List.map_singleton, Remark.line_summary,
    List.map_flatMap, ← List.countP_eq_length_filter]
  simp only [← OptionsReport.lines_eq, ← OptionsReport.name_order]
  rfl

/-! ## Reports on a fixing pass -/

/-- The remarks on the fixing pass over one file. The configuration comes last. -/
def FixConfigReport.remarks (r : FixConfigReport) : List Remark :=
  .file r.file (if r.fixStage then "fix stage runs" else "fix stage skipped")
    :: r.disabled.map .unfixable ++ [.configuration r.config]

/-- The lines on a fixing pass say what the remarks on it say. -/
theorem FixConfigReport.lines_eq (colours : Bool) (r : FixConfigReport) :
    r.lines colours = r.remarks.map (Remark.line colours) := by
  rw [lines, remarks, List.map_append, List.map_cons, List.map_map, Remark.line_file]
  simp only [Function.comp_def, Remark.line_unfixable]
  cases colours <;> rfl

/-- What is printed of a report on a fixing pass: a document, or the remarks. Either has the written
form of the whole configuration in it. -/
def FixConfigPrinted (output : String) (colours : Bool) (report : FixConfigReport)
    (text : String) : Prop :=
  Printed output colours
    (.object
      [("file", .string report.file), ("fixStage", .bool report.fixStage),
        ("disabled", .array (report.disabled.map .string)), ("config", report.config.toJson)])
    report.remarks text

/-- What is printed of a report on a fixing pass is this text and no other. -/
theorem showFixConfig_eq_iff {report : FixConfigReport} :
    showFixConfig output colours report = text ↔ FixConfigPrinted output colours report text := by
  rw [FixConfigPrinted, printed_iff, ← FixConfigReport.lines_eq]
  rfl

end Concord
