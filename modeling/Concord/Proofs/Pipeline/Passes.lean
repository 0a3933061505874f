import Concord.Pipeline.Run
import Mathlib.Data.List.Nodup

/-!
# What a run does

`Plan.passes` lists the passes that a plan makes, and `Makes` says what making a list of passes over
a text comes to: which engine is called with what, and what the result is. A run of a plan makes its
passes, by induction over the stages of the order (`Run.foldl_runStage`) and over the passes
(`Run.ofPasses_eq_iff_makes`). `FormatRequest.format_makes` says the same of a whole request.
-/

namespace Concord

/-! ## Passes -/

/-- A pass that is made, with what its engine is handed besides the text and the file. -/
inductive Pass where
  /-- The formatter lays the text out. -/
  | format (options : FormatOptions)
  /-- The linter repairs the text. -/
  | fix (config : FixConfig)

namespace Pass

/-- The stage that a pass carries out. -/
def stage : Pass → Stage
  | .format _ => .format
  | .fix _ => .fix

/-- The call that a pass makes. -/
def call (file : Option Path) (text : String) : Pass → EngineCall
  | .format options => .format text options
  | .fix config => .fix text file config

/-- What a pass leaves: the text from its engine, the text as it was if the linter repaired nothing,
or the failure of the engine under the name of the file, a text without a file being `<text>`. -/
def outcome (formatter : Formatter) (linter : Linter) (file : Option Path) (text : String) :
    Pass → Except PipelineFailure String
  | .format options =>
    match formatter.format text options with
    | .ok laidOut => .ok laidOut
    | .error cause => .error (.format ((file.map Path.text).getD "<text>") cause)
  | .fix config =>
    match linter.fix text file config with
    | .ok ⟨some repaired, _⟩ => .ok repaired
    | .ok ⟨none, _⟩ => .ok text
    | .error cause => .error (.lint ((file.map Path.text).getD "<text>") cause)

end Pass

/-- The stage that a call belongs to. -/
def EngineCall.stage : EngineCall → Stage
  | .format _ _ => .format
  | .fix _ _ _ => .fix

/-- The pass that a plan makes for a stage: none for the fixing stage if the plan has no
configuration for it. -/
def Plan.pass? (plan : Plan) : Stage → Option Pass
  | .format => some (.format plan.formatting)
  | .fix => plan.fix.map .fix

/-- The passes that a plan makes, in order. -/
def Plan.passes (plan : Plan) : List Pass := plan.order.stages.filterMap plan.pass?

/-- Making passes over a text comes to some calls and a result: each pass works on what the one
before left, and the first failure ends it. -/
inductive Makes (formatter : Formatter) (linter : Linter) (file : Option Path) :
    List Pass → String → List EngineCall → Except PipelineFailure String → Prop
  /-- After the last pass the text is the result. -/
  | done (text : String) : Makes formatter linter file [] text [] (.ok text)
  /-- A pass that succeeds hands its text on. -/
  | next {pass : Pass} {rest : List Pass} {text left : String} {calls : List EngineCall}
      {result : Except PipelineFailure String} :
      pass.outcome formatter linter file text = .ok left →
      Makes formatter linter file rest left calls result →
      Makes formatter linter file (pass :: rest) text (pass.call file text :: calls) result
  /-- A pass that fails is the last one. -/
  | fail {pass : Pass} {rest : List Pass} {text : String} {failure : PipelineFailure} :
      pass.outcome formatter linter file text = .error failure →
      Makes formatter linter file (pass :: rest) text [pass.call file text] (.error failure)

/-! ## Runs in sequence -/

namespace Run

theorem andThen_unchanged (run : Run) : run.andThen unchanged = run := by
  obtain ⟨calls, result⟩ := run
  cases result with
  | error failure => rfl
  | ok text => simp [andThen, unchanged]

/-- Three runs in a row can be put together from either side. -/
theorem andThen_assoc (run : Run) (second third : String → Run) :
    (run.andThen second).andThen third = run.andThen fun text => (second text).andThen third := by
  obtain ⟨calls, result⟩ := run
  cases result with
  | error failure => rfl
  | ok text =>
    simp only [andThen]
    cases h : (second text).result with
    | error failure => simp [h]
    | ok left => simp [List.append_assoc]

variable (formatter : Formatter) (linter : Linter) (file : Option Path)

/-- The run of one pass. -/
def ofPass (text : String) (pass : Pass) : Run :=
  ⟨[pass.call file text], pass.outcome formatter linter file text⟩

/-- The run of passes one after another. -/
def ofPasses : List Pass → String → Run
  | [], text => unchanged text
  | pass :: rest, text => (ofPass formatter linter file text pass).andThen (ofPasses rest)

theorem shownFile_eq : shownFile file = (file.map Path.text).getD "<text>" := by
  cases file <;> rfl

/-- Formatting is the run of its pass. -/
theorem format_eq_ofPass (options : FormatOptions) (text : String) :
    format formatter file options text = ofPass formatter linter file text (.format options) := by
  simp only [format, ofPass, Pass.outcome, shownFile_eq]
  cases formatter.format text options <;> rfl

/-- Repairing is the run of its pass. -/
theorem fix_eq_ofPass (config : FixConfig) (text : String) :
    fix linter file config text = ofPass formatter linter file text (.fix config) := by
  simp only [fix, ofPass, Pass.outcome, shownFile_eq]
  cases linter.fix text file config with
  | error cause => rfl
  | ok report =>
    obtain ⟨output, remaining⟩ := report
    cases output <;> rfl

/-- A stage runs the pass that the plan makes for it, if there is one. -/
theorem runStage_eq (plan : Plan) (text : String) (stage : Stage) :
    plan.runStage formatter linter file text stage =
      match plan.pass? stage with
      | some pass => ofPass formatter linter file text pass
      | none => unchanged text := by
  cases stage with
  | format => exact format_eq_ofPass formatter linter file plan.formatting text
  | fix =>
    unfold Plan.runStage Plan.pass?
    cases plan.fix with
    | none => rfl
    | some config => exact fix_eq_ofPass formatter linter file config text

/-- Stages run one after another run the passes that the plan makes for them. -/
theorem foldl_runStage (plan : Plan) (stages : List Stage) (start : Run) :
    stages.foldl
        (fun run stage => run.andThen fun text => plan.runStage formatter linter file text stage)
        start =
      start.andThen (ofPasses formatter linter file (stages.filterMap plan.pass?)) := by
  induction stages generalizing start with
  | nil => exact (andThen_unchanged start).symm
  | cons stage rest ih =>
    rw [List.foldl_cons, ih, andThen_assoc]
    congr 1
    funext text
    rw [runStage_eq, List.filterMap_cons]
    cases plan.pass? stage <;> rfl

/-- A plan is run by making its passes one after another. -/
theorem run_eq_ofPasses (plan : Plan) (text : String) :
    plan.run formatter linter file text = ofPasses formatter linter file plan.passes text :=
  foldl_runStage formatter linter file plan plan.order.stages (unchanged text)

/-- What `Makes` says of passes is what they come to when they are run. -/
theorem ofPasses_eq_iff_makes {passes : List Pass} {text : String} {calls : List EngineCall}
    {result : Except PipelineFailure String} :
    ofPasses formatter linter file passes text = ⟨calls, result⟩ ↔
      Makes formatter linter file passes text calls result := by
  induction passes generalizing text calls with
  | nil =>
    constructor
    · intro h
      cases h
      exact .done text
    · intro h
      cases h
      rfl
  | cons pass rest ih =>
    cases houtcome : pass.outcome formatter linter file text with
    | error failure =>
      have hrun : ofPasses formatter linter file (pass :: rest) text =
          ⟨[pass.call file text], .error failure⟩ := by
        simp [ofPasses, ofPass, andThen, houtcome]
      rw [hrun]
      constructor
      · intro h
        cases h
        exact .fail houtcome
      · intro h
        cases h with
        | next hleft => rw [houtcome] at hleft; cases hleft
        | fail hfailure => rw [houtcome] at hfailure; cases hfailure; rfl
    | ok left =>
      have hrun : ofPasses formatter linter file (pass :: rest) text =
          ⟨pass.call file text :: (ofPasses formatter linter file rest left).calls,
            (ofPasses formatter linter file rest left).result⟩ := by
        simp [ofPasses, ofPass, andThen, houtcome]
      rw [hrun]
      constructor
      · intro h
        cases h
        exact .next houtcome (ih.1 rfl)
      · intro h
        cases h with
        | next hleft hrest =>
          rw [houtcome] at hleft
          cases hleft
          rw [ih.2 hrest]
        | fail hfailure => rw [houtcome] at hfailure; cases hfailure

end Run

/-! ## The calls of a run -/

section Calls

variable {formatter : Formatter} {linter : Linter} {file : Option Path} {passes : List Pass}
  {text : String} {calls : List EngineCall} {result : Except PipelineFailure String}

/-- Calls are made for the passes in their order, up to some place. -/
theorem Makes.stages_isPrefix (h : Makes formatter linter file passes text calls result) :
    calls.map EngineCall.stage <+: passes.map Pass.stage := by
  have hstage : ∀ (pass : Pass) (text : String), (pass.call file text).stage = pass.stage := by
    intro pass text
    cases pass <;> rfl
  induction h with
  | done text => exact List.nil_prefix
  | @next pass rest text left calls result houtcome hrest ih =>
    rw [List.map_cons, List.map_cons, hstage]
    exact (List.prefix_cons_inj _).2 ih
  | @fail pass rest text failure houtcome =>
    rw [List.map_cons, List.map_cons, hstage]
    exact (List.prefix_cons_inj _).2 List.nil_prefix

/-- Every call is that of one of the passes. -/
theorem Makes.exists_pass_of_mem (h : Makes formatter linter file passes text calls result) :
    ∀ call ∈ calls, ∃ pass ∈ passes, ∃ input, call = pass.call file input := by
  induction h with
  | done text => simp
  | @next pass rest text left calls result houtcome hrest ih =>
    intro call hcall
    rcases List.mem_cons.1 hcall with rfl | hcall
    · exact ⟨pass, List.mem_cons_self, text, rfl⟩
    · obtain ⟨other, hother, input, rfl⟩ := ih call hcall
      exact ⟨other, List.mem_cons_of_mem _ hother, input, rfl⟩
  | @fail pass rest text failure houtcome =>
    intro call hcall
    rw [List.mem_singleton] at hcall
    exact ⟨pass, List.mem_cons_self, text, hcall⟩

end Calls

namespace Plan

/-- The stages of the order are run, but the fixing stage only if the plan has a configuration for
it. -/
theorem map_stage_passes (plan : Plan) :
    plan.passes.map Pass.stage =
      plan.order.stages.filter fun stage => stage = .format || plan.fix.isSome := by
  unfold passes
  cases plan.order <;> cases hfix : plan.fix <;>
    simp [StageOrder.stages, pass?, hfix, Pass.stage]

/-- With the linter first, its pass comes before that of the formatter, if it is made at all. -/
theorem passes_of_fixThenFormat (plan : Plan) (h : plan.order = .fixThenFormat) :
    plan.passes = (plan.fix.map Pass.fix).toList ++ [.format plan.formatting] := by
  rw [passes, h]
  cases hfix : plan.fix <;> simp [StageOrder.stages, pass?, hfix]

/-- With the formatter first, the pass of the linter comes after it, if it is made at all. -/
theorem passes_of_formatThenFix (plan : Plan) (h : plan.order = .formatThenFix) :
    plan.passes = .format plan.formatting :: (plan.fix.map Pass.fix).toList := by
  rw [passes, h]
  cases hfix : plan.fix <;> simp [StageOrder.stages, pass?, hfix]

/-- No plan makes two passes of one kind. -/
theorem nodup_stage_passes (plan : Plan) : (plan.passes.map Pass.stage).Nodup := by
  rw [map_stage_passes]
  refine List.Nodup.filter _ ?_
  cases plan.order <;> decide

/-- A pass of a plan has what it needs from that plan. -/
theorem eq_of_mem_passes {plan : Plan} {pass : Pass} (h : pass ∈ plan.passes) :
    pass = .format plan.formatting ∨ ∃ config, plan.fix = some config ∧ pass = .fix config := by
  obtain ⟨stage, -, hstage⟩ := List.mem_filterMap.1 h
  cases stage with
  | format => exact .inl (Option.some.inj hstage).symm
  | fix =>
    obtain ⟨config, hconfig, rfl⟩ := Option.map_eq_some_iff.1 hstage
    exact .inr ⟨config, hconfig, rfl⟩

end Plan

/-! ## Requests -/

namespace Run

variable (formatter : Formatter) (linter : Linter) (file : Option Path)

/-- A single pass leaves what its engine makes of the text. -/
theorem ofPasses_singleton (pass : Pass) (text : String) :
    ofPasses formatter linter file [pass] text =
      ⟨[pass.call file text], pass.outcome formatter linter file text⟩ :=
  andThen_unchanged (ofPass formatter linter file text pass)

/-- The second of two passes works on what the first left, and only if it left something. -/
theorem ofPasses_pair (first second : Pass) (text : String) :
    ofPasses formatter linter file [first, second] text =
      match first.outcome formatter linter file text with
      | .ok left =>
        ⟨[first.call file text, second.call file left],
          second.outcome formatter linter file left⟩
      | .error failure => ⟨[first.call file text], .error failure⟩ := by
  have hsecond : ofPasses formatter linter file [second] =
      fun left => ⟨[second.call file left], second.outcome formatter linter file left⟩ := by
    funext left
    exact ofPasses_singleton formatter linter file second left
  rw [ofPasses, hsecond]
  unfold ofPass andThen
  cases first.outcome formatter linter file text <;> rfl

end Run

namespace FormatRequest

variable {request : FormatRequest} {read : Path → Except ReadFailure String}
  {resolver : Resolver} {formatter : Formatter} {linter : Linter}

theorem source_nothingGiven (htext : request.text = none) (hfile : request.file = none) :
    request.source read = .error .nothingGiven := by
  simp [source, htext, hfile]

theorem source_unreadable {path : Path} {reason : ReadFailure} (htext : request.text = none)
    (hfile : request.file = some path) (hread : read path = .error reason) :
    request.source read = .error (.unreadable path reason) := by
  simp only [source, htext, hfile, hread]
  rfl

/-- The text of a request is the one given, or else what is read from the file. -/
theorem source_eq_ok {text : String} (h : request.text = some text ∨
    request.text = none ∧ ∃ path, request.file = some path ∧ read path = .ok text) :
    request.source read = .ok text := by
  rcases h with htext | ⟨htext, path, hfile, hread⟩
  · simp only [source, htext]
  · simp only [source, htext, hfile, hread]
    rfl

/-- Without a text nothing is called. -/
theorem format_of_source_error {failure : PipelineFailure}
    (h : request.source read = .error failure) :
    request.format read resolver formatter linter = ⟨[], .error failure⟩ := by
  unfold format
  rw [h]

/-- With a text the passes of the plan are made over it. -/
theorem format_of_source_ok {text : String} (h : request.source read = .ok text) :
    request.format read resolver formatter linter =
      Run.ofPasses formatter linter request.file (request.plan resolver linter.catalog).passes
        text := by
  unfold format
  rw [h]
  exact Run.run_eq_ofPasses formatter linter request.file _ text

/-- Whatever there is to read, a request comes to a failure without calls or to the passes of its
plan made over some text. -/
theorem format_cases (request : FormatRequest) (read : Path → Except ReadFailure String)
    (resolver : Resolver) (formatter : Formatter) (linter : Linter) :
    (∃ failure, request.format read resolver formatter linter = ⟨[], .error failure⟩) ∨
    ∃ text, Makes formatter linter request.file (request.plan resolver linter.catalog).passes text
      (request.format read resolver formatter linter).calls
      (request.format read resolver formatter linter).result := by
  cases hsource : request.source read with
  | error failure =>
    exact .inl ⟨failure, format_of_source_error hsource⟩
  | ok text =>
    have hrun : request.format read resolver formatter linter = _ := format_of_source_ok hsource
    exact .inr ⟨text, (Run.ofPasses_eq_iff_makes formatter linter request.file).1 hrun.symm⟩

/-! ## The calls of a request -/

/-- Nothing is called but for a pass of the plan. -/
theorem exists_pass_of_mem_calls {call : EngineCall}
    (h : call ∈ (request.format read resolver formatter linter).calls) :
    ∃ pass ∈ (request.plan resolver linter.catalog).passes, ∃ input,
      call = pass.call request.file input := by
  rcases format_cases request read resolver formatter linter with ⟨failure, hrun⟩ | ⟨text, hmakes⟩
  · rw [hrun] at h
    cases h
  · exact hmakes.exists_pass_of_mem call h

/-- No engine is called twice. -/
theorem nodup_stage_calls :
    ((request.format read resolver formatter linter).calls.map EngineCall.stage).Nodup := by
  rcases format_cases request read resolver formatter linter with ⟨failure, hrun⟩ | ⟨text, hmakes⟩
  · rw [hrun]
    exact List.nodup_nil
  · have hpasses := (request.plan resolver linter.catalog).nodup_stage_passes
    exact hmakes.stages_isPrefix.sublist.nodup hpasses

/-- The formatter is called with the options of the plan. -/
theorem options_of_mem_calls {text : String} {options : FormatOptions}
    (h : .format text options ∈ (request.format read resolver formatter linter).calls) :
    options = (request.plan resolver linter.catalog).formatting := by
  obtain ⟨pass, hpass, input, hcall⟩ := exists_pass_of_mem_calls h
  rcases Plan.eq_of_mem_passes hpass with rfl | ⟨config, -, rfl⟩
  · cases hcall
    rfl
  · cases hcall

/-- The linter is called with the file of the request and the configuration of the plan. -/
theorem config_of_mem_calls {text : String} {file : Option Path} {config : FixConfig}
    (h : .fix text file config ∈ (request.format read resolver formatter linter).calls) :
    file = request.file ∧ (request.plan resolver linter.catalog).fix = some config := by
  obtain ⟨pass, hpass, input, hcall⟩ := exists_pass_of_mem_calls h
  rcases Plan.eq_of_mem_passes hpass with rfl | ⟨planned, hplanned, rfl⟩
  · cases hcall
  · cases hcall
    exact ⟨rfl, hplanned⟩

/-! ## The whole of a run -/

/-- What formatting a request does. Without a text to work on it fails and calls no engine. With one
it makes the passes of the plan over it: the second pass works on what the first left, if it left
something, and the first failure is the result. The formatter's pass is always made, the fixing pass
only if the plan has a configuration for it, and the order says which of the two comes first. No
engine is called twice, and each is handed what the plan says. A fixing pass that repairs nothing
leaves the text as it was. -/
theorem format_makes (request : FormatRequest) (read : Path → Except ReadFailure String)
    (resolver : Resolver) (formatter : Formatter) (linter : Linter) :
    let run := request.format read resolver formatter linter
    let plan := request.plan resolver linter.catalog
    let outcome := Pass.outcome formatter linter request.file
    (request.text = none → request.file = none → run = ⟨[], .error .nothingGiven⟩) ∧
    (∀ path reason, request.text = none → request.file = some path →
      read path = .error reason → run = ⟨[], .error (.unreadable path reason)⟩) ∧
    (∀ text, (request.text = some text ∨
        request.text = none ∧ ∃ path, request.file = some path ∧ read path = .ok text) →
      (∀ calls result, run = ⟨calls, result⟩ ↔
        Makes formatter linter request.file plan.passes text calls result) ∧
      (∀ only, plan.passes = [only] →
        run = ⟨[only.call request.file text], outcome text only⟩) ∧
      ∀ first second, plan.passes = [first, second] →
        run = match outcome text first with
          | .ok left =>
            ⟨[first.call request.file text, second.call request.file left], outcome left second⟩
          | .error failure => ⟨[first.call request.file text], .error failure⟩) ∧
    (request.order = .fixThenFormat →
      plan.passes = (plan.fix.map Pass.fix).toList ++ [.format plan.formatting]) ∧
    (request.order = .formatThenFix →
      plan.passes = .format plan.formatting :: (plan.fix.map Pass.fix).toList) ∧
    plan.passes.map Pass.stage =
      request.order.stages.filter (fun stage => stage = .format || plan.fix.isSome) ∧
    (run.calls.map EngineCall.stage).Nodup ∧
    (∀ text options, .format text options ∈ run.calls → options = plan.formatting) ∧
    (∀ text file config, .fix text file config ∈ run.calls →
      file = request.file ∧ plan.fix = some config) ∧
    ∀ text config remaining, linter.fix text request.file config = .ok ⟨none, remaining⟩ →
      outcome text (.fix config) = .ok text := by
  intro run plan outcome
  refine ⟨?nothing, ?unreadable, ?passes, plan.passes_of_fixThenFormat,
    plan.passes_of_formatThenFix, plan.map_stage_passes, nodup_stage_calls,
    fun _ _ => options_of_mem_calls, fun _ _ _ => config_of_mem_calls, ?unrepaired⟩
  case nothing =>
    intro htext hfile
    exact format_of_source_error (source_nothingGiven htext hfile)
  case unreadable =>
    intro path reason htext hfile hread
    exact format_of_source_error (source_unreadable htext hfile hread)
  case passes =>
    intro text htext
    have hrun : run = Run.ofPasses formatter linter request.file plan.passes text :=
      format_of_source_ok (source_eq_ok htext)
    refine ⟨?_, ?_, ?_⟩
    · intro calls result
      rw [hrun]
      exact Run.ofPasses_eq_iff_makes formatter linter request.file
    · intro only honly
      rw [hrun, honly]
      exact Run.ofPasses_singleton formatter linter request.file only text
    · intro first second hpair
      rw [hrun, hpair]
      exact Run.ofPasses_pair formatter linter request.file first second text
  case unrepaired =>
    intro text config remaining hfix
    have houtcome : outcome text (.fix config) =
        Pass.outcome formatter linter request.file text (.fix config) := rfl
    rw [houtcome, Pass.outcome, hfix]

/-- A linter that repairs nothing. -/
def idleLinter : Linter := ⟨fun _ _ _ => .ok {}, .fallback⟩

/-- A formatter that makes nothing of any text. -/
def lostFormatter : Formatter := ⟨fun _ _ => .error ⟨"Unexpected token", some 1, some 5⟩⟩

/-- A linter that ends every text with a line break. -/
def breakingLinter : Linter := ⟨fun text _ _ => .ok { output := some (text ++ "\n") }, .fallback⟩

/-- A formatter that ends every text with a semicolon. -/
def semicolonFormatter : Formatter := ⟨fun text _ => .ok (text ++ ";")⟩

/-- A text without a file. -/
def bareText : FormatRequest where
  text := some "let a"

/-- In the usual order the formatter is called on the text that the linter left alone, and its
failure is the result. In the other order the linter is called on what the formatter made of the
text. -/
theorem format_bareText :
    let run := bareText.format (fun _ => .error .notFound) .nothing lostFormatter idleLinter
    let turned := ({ bareText with order := .formatThenFix } : FormatRequest).format
      (fun _ => .error .notFound) .nothing semicolonFormatter breakingLinter
    run.calls.map EngineCall.stage = [.fix, .format] ∧
      run.result = .error (.format "<text>" ⟨"Unexpected token", some 1, some 5⟩) ∧
      turned.calls.map EngineCall.stage = [.format, .fix] ∧ turned.result = .ok "let a;\n" := by
  intro run turned
  obtain ⟨-, -, hmakes, hplanned, -⟩ := format_makes bareText (fun _ => .error .notFound) .nothing
    lostFormatter idleLinter
  have hrun : run = _ := (hmakes "let a" (.inl rfl)).2.2 _ _ (hplanned rfl)
  obtain ⟨-, -, hmakesTurned, -, hplannedTurned, -⟩ := format_makes
    { bareText with order := .formatThenFix } (fun _ => .error .notFound) .nothing
    semicolonFormatter breakingLinter
  have hturned : turned = _ := (hmakesTurned "let a" (.inl rfl)).2.2 _ _ (hplannedTurned rfl)
  rw [hrun, hturned]
  exact ⟨rfl, rfl, rfl, rfl⟩

end FormatRequest

end Concord
