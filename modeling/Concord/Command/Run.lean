import Concord.Command.Basic
import Concord.Inspection.Rendering
import Concord.Inspection.Target
import Concord.Lookup.Nearby
import Concord.Settings.Effective

/-!
# Carrying out commands

`Command.run` is what a command prints, or why it fails. Only what the caller names can make a
command fail: configuration that is found by looking around is passed over if it is spoilt.
-/

namespace Concord

/-- Why a command fails. -/
inductive CommandFailure where
  /-- No file is named. -/
  | noFiles
  /-- There is no order of passes with this name. -/
  | unknownOrder (name : String)
  /-- The value of an option is not JSON. -/
  | notJson (option : String)
  /-- The value of an option is JSON, but no object. -/
  | notObject (option : String)
  /-- The configuration that the caller names cannot be loaded. -/
  | lintConfig (cause : LookupFailure)
  /-- The catalog cannot be loaded. -/
  | catalog (cause : LookupFailure)

/-- The words for a failed look-up, followed by the reason for not reading a file once more. -/
def LookupFailure.trail (e : LookupFailure) : String :=
  match e with
  | .read _ reason => e.message ++ ": " ++ reason.message
  | .parse _ _ => e.message

/-- The words for a failure. -/
def CommandFailure.message : CommandFailure → String
  | .noFiles => "no files given"
  | .unknownOrder name =>
    "unknown stage order '" ++ name ++ "' (expected fix-then-format|format-then-fix)"
  | .notJson option => option ++ " is not valid JSON"
  | .notObject option => option ++ " must be a JSON object"
  | .lintConfig cause => "load --lint-config: " ++ cause.trail
  | .catalog cause => "load rule catalog: " ++ cause.trail

namespace Command

/-- The program's version. -/
def versionText : String := "0.1.0"

/-- The order with a name that the caller gives. -/
def chosenOrder : Option String → Except CommandFailure (Option StageOrder)
  | none => .ok none
  | some name =>
    match StageOrder.ofName? name with
    | some order => .ok (some order)
    | none => .error (.unknownOrder name)

/-- The formatter options that the value of an option gives; without the option there are none. -/
def chosenOptions (option : String) : Option String → Except CommandFailure FormatOptions
  | none => .ok .empty
  | some text =>
    match Json.read? text with
    | none => .error (.notJson option)
    | some (.object fields) => .ok (.ofFields fields)
    | some _ => .error (.notObject option)

/-- The configuration in the file that the caller names, completed by the extensions of the
settings. -/
def chosenLintConfig (d : Disk) (e : Effective) (file : Option String) :
    Except CommandFailure LintConfig := do
  let config ←
    match file with
    | some name => (d.loadLintConfig (.ofText name)).mapError .lintConfig
    | none => .ok {}
  return { config with extensions := config.extensions.or e.extensions }

/-- The catalog that is in effect. -/
def catalogInEffect (d : Disk) (e : Effective) : Except CommandFailure Catalog :=
  match e.catalog with
  | some path => (d.loadCatalog path).mapError .catalog
  | none => .ok Catalog.fallback

/-- What is in effect for the shared options and an order. -/
def inEffect (d : Disk) (common : InspectOptions) (order : Option StageOrder) : Effective :=
  d.effective { start := common.start, output := common.output, order, catalog := common.catalog }

/-- The reports on the formatter options of files, and how to show them. -/
def optionsReports (d : Disk) (files : List String) (common : InspectOptions)
    (explicit fallback order : Option String) :
    Except CommandFailure (String × List OptionsReport) := do
  if files.isEmpty then throw .noFiles
  let e := inEffect d common (← chosenOrder order)
  let fallback ← chosenOptions "--fallback" fallback
  let options ← chosenOptions "--options" explicit
  let lintConfig ← chosenLintConfig d e common.lintConfig
  let catalog ← catalogInEffect d e
  let template : FormatRequest :=
    { lintConfig, options, fallback := e.fallback.overlay fallback, order := e.order }
  return (e.output,
    template.optionsReports e.root (d.resolver e.root) catalog (d.targets e.root files))

/-- The report on the fixing pass over a file, and how to show it. -/
def fixConfigReport (d : Disk) (file : String) (common : InspectOptions) :
    Except CommandFailure (String × FixConfigReport) := do
  let e := inEffect d common none
  let lintConfig ← chosenLintConfig d e common.lintConfig
  let catalog ← catalogInEffect d e
  let template : FormatRequest := { lintConfig }
  return (e.output,
    template.fixConfigReport e.root (d.resolver e.root) catalog (e.root.join (.ofText file)))

/-- What a command prints. -/
def run (d : Disk) (colours : Bool) : Command → Except CommandFailure String
  | .version => .ok (linesText [versionText])
  | .options files common explicit fallback order => do
    let (output, reports) ← optionsReports d files common explicit fallback order
    return showOptions output colours reports
  | .fixConfig file common => do
    let (output, report) ← fixConfigReport d file common
    return showFixConfig output colours report

end Command

/-! ## Command lines -/

/-- How carrying out a command line ends. -/
inductive Ending where
  /-- Everything went well, and something is printed. -/
  | success (output : String)
  /-- The command failed. -/
  | failure (cause : CommandFailure)
  /-- There is no command to carry out. -/
  | misuse

namespace Ending

/-- The exit code. -/
def code : Ending → Nat
  | .success _ => 0
  | .failure _ => 2
  | .misuse => 2

/-- What is printed. -/
def output : Ending → String
  | .success output => output
  | .failure _ => ""
  | .misuse => ""

/-- What there is to complain about, if anything. -/
def complaint? : Ending → Option String
  | .success _ => none
  | .failure cause => some cause.message
  | .misuse => some "the arguments make no command; try --help"

end Ending

/-- The name of the program. -/
def programName : String := "lintfmt"

/-- A summary of the commands and their options. -/
def helpLines : List String :=
  ["Usage: " ++ programName ++ " [--log-level LEVEL] COMMAND",
    "",
    "Commands:",
    "  version               Show version",
    "  options [FILE]...     Derive formatter options",
    "  fix-config FILE       Show the fix-pass configuration",
    "",
    "Options of both inspecting commands:",
    "  --repo-root DIR, --output MODE, --lint-config FILE, --catalog FILE",
    "Options of the first:",
    "  --options JSON, --fallback JSON, --order ORDER"]

/-- How the line made of some words ends on a disk. -/
def runLine (d : Disk) (colours : Bool) (words : List String) : Ending :=
  match Command.read words with
  | .error .misuse => .misuse
  | .error .help => .success (linesText helpLines)
  | .error .version => .success (linesText [programName ++ " " ++ Command.versionText])
  | .ok command =>
    match command.run d colours with
    | .ok output => .success output
    | .error cause => .failure cause

end Concord
