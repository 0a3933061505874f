import Concord.Pipeline.Engine
import Concord.Plan.Basic

/-!
# Running a plan

A run sends a text through the passes of a plan, each pass working on what the one before it left.
The first failure ends the run, and no partial text survives it. A run keeps account of the calls it
makes, so that which engine is called, with what and in which order, is part of its result.
-/

namespace Concord

/-- Why a run has no text to show. -/
inductive PipelineFailure where
  /-- The formatter failed on a file. -/
  | format (file : String) (cause : FormatFailure)
  /-- The linter failed on a file. -/
  | lint (file : String) (cause : LintFailure)
  /-- There is no text: neither a text nor a file was given. -/
  | nothingGiven
  /-- There is no text: the file cannot be read. -/
  | unreadable (file : Path) (reason : ReadFailure)

/-- The words for a failure. -/
def PipelineFailure.message : PipelineFailure → String
  | .format file cause => "formatter could not parse " ++ file ++ ": " ++ cause.message
  | .lint file cause => "lint engine failed on " ++ file ++ ": " ++ cause.message
  | .nothingGiven => "no source text: neither text nor file path given"
  | .unreadable file reason =>
    "no source text: cannot read " ++ file.text ++ ": " ++ reason.message

/-- A call of an engine. -/
inductive EngineCall where
  /-- The formatter is called. -/
  | format (text : String) (options : FormatOptions)
  /-- The linter is called. -/
  | fix (text : String) (file : Option Path) (config : FixConfig)

/-- A run: the calls that were made, and the text or failure at the end. -/
structure Run where
  /-- The calls in the order in which they were made. -/
  calls : List EngineCall
  /-- The text at the end, unless a call failed. -/
  result : Except PipelineFailure String

/-- The name under which the file of a text is shown. -/
def shownFile : Option Path → String
  | some path => path.text
  | none => "<text>"

/-- The text of a request: the one given, else what `read` finds in the file. -/
def FormatRequest.source (request : FormatRequest) (read : Path → Except ReadFailure String) :
    Except PipelineFailure String :=
  match request.text, request.file with
  | some text, _ => .ok text
  | none, none => .error .nothingGiven
  | none, some path => (read path).mapError (.unreadable path)

namespace Run

/-- The run that makes no call and leaves a text as it is. -/
def unchanged (text : String) : Run := ⟨[], .ok text⟩

/-- The formatting pass over a text. -/
def format (formatter : Formatter) (file : Option Path) (options : FormatOptions)
    (text : String) : Run where
  calls := [.format text options]
  result := (formatter.format text options).mapError (.format (shownFile file))

/-- The fixing pass over a text, which stays as it is if there is nothing to repair. -/
def fix (linter : Linter) (file : Option Path) (config : FixConfig) (text : String) : Run where
  calls := [.fix text file config]
  result :=
    match linter.fix text file config with
    | .ok report => .ok (report.output.getD text)
    | .error cause => .error (.lint (shownFile file) cause)

/-- A run continued, unless it failed, by what `next` does to its text. -/
def andThen (run : Run) (next : String → Run) : Run :=
  match run.result with
  | .ok text => ⟨run.calls ++ (next text).calls, (next text).result⟩
  | .error _ => run

end Run

/-- One pass of a plan over a text. The fixing pass does nothing if the plan has none. -/
def Plan.runStage (plan : Plan) (formatter : Formatter) (linter : Linter) (file : Option Path)
    (text : String) : Stage → Run
  | .format => Run.format formatter file plan.formatting text
  | .fix =>
    match plan.fix with
    | some config => Run.fix linter file config text
    | none => Run.unchanged text

/-- All passes of a plan over a text, in order. -/
def Plan.run (plan : Plan) (formatter : Formatter) (linter : Linter) (file : Option Path)
    (text : String) : Run :=
  plan.order.stages.foldl
    (fun run stage => run.andThen fun text => plan.runStage formatter linter file text stage)
    (Run.unchanged text)

/-- A request planned and run. Without a text nothing is run. -/
def FormatRequest.format (request : FormatRequest) (read : Path → Except ReadFailure String)
    (resolver : Resolver) (formatter : Formatter) (linter : Linter) : Run :=
  match request.source read with
  | .error failure => ⟨[], .error failure⟩
  | .ok text =>
    (request.plan resolver linter.catalog).run formatter linter request.file text

end Concord
