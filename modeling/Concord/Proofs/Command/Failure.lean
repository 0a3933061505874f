import Concord.Proofs.Command.Chosen
import Concord.Proofs.Inspection.Printed
import Concord.Proofs.Inspection.Reports
import Concord.Proofs.Lint.Document
import Mathlib.Tactic.IntervalCases

/-!
# How the command for options fails

`Command.Trouble` lists what can be wrong for each stage of the command, in the order of the stages.
The command fails exactly if something is wrong, with the failure of the first such stage
(`Command.optionsReports_eq_error_iff`). The stages look at what the caller writes and at the two
files that are named, so that nothing else on the disk can make a line fail.
-/

namespace Concord

namespace Command

/-- What can be wrong at each stage of the command, and the failure that says so. -/
inductive Trouble (d : Disk) (files : List String) (common : InspectOptions)
    (explicit fallback order : Option String) : Nat → CommandFailure → Prop where
  | noFiles (hfiles : files = []) : Trouble d files common explicit fallback order 0 .noFiles
  | unknownOrder {name : String} (hname : order = some name) (hfirst : name ≠ "fix-then-format")
      (hsecond : name ≠ "format-then-fix") :
      Trouble d files common explicit fallback order 1 (.unknownOrder name)
  | fallbackNotJson {text : String} (htext : fallback = some text)
      (hjson : Json.read? text = none) :
      Trouble d files common explicit fallback order 2 (.notJson "--fallback")
  | fallbackNotObject {text : String} {v : Json} (htext : fallback = some text)
      (hjson : Json.read? text = some v) (hobject : ∀ fields, v ≠ .object fields) :
      Trouble d files common explicit fallback order 2 (.notObject "--fallback")
  | optionsNotJson {text : String} (htext : explicit = some text)
      (hjson : Json.read? text = none) :
      Trouble d files common explicit fallback order 3 (.notJson "--options")
  | optionsNotObject {text : String} {v : Json} (htext : explicit = some text)
      (hjson : Json.read? text = some v) (hobject : ∀ fields, v ≠ .object fields) :
      Trouble d files common explicit fallback order 3 (.notObject "--options")
  | lintConfigUnread {name : String} {reason : ReadFailure}
      (hname : common.lintConfig = some name)
      (hread : d.readText (.ofText name) = .error reason) :
      Trouble d files common explicit fallback order 4
        (.lintConfig (.read (.ofText name) reason))
  | lintConfigRefused {name text : String} {reason : ParseFailure}
      (hname : common.lintConfig = some name) (hread : d.readText (.ofText name) = .ok text)
      (hparse : (Notation.ofPath (.ofText name)).decode LintConfig.decode text = .error reason) :
      Trouble d files common explicit fallback order 4
        (.lintConfig (.parse (.ofText name) reason))
  | catalogUnread {path : Path} {reason : ReadFailure} (hpath : CatalogFile d common path)
      (hread : d.readText path = .error reason) :
      Trouble d files common explicit fallback order 5 (.catalog (.read path reason))
  | catalogRefused {path : Path} {text : String} {reason : ParseFailure}
      (hpath : CatalogFile d common path) (hread : d.readText path = .ok text)
      (hparse : Catalog.read text = .error reason) :
      Trouble d files common explicit fallback order 5 (.catalog (.parse path reason))

variable {d : Disk} {files : List String} {common : InspectOptions}
  {explicit fallback order : Option String} {failure : CommandFailure}

/-! ## The stages one by one -/

/-- Reading the order fails exactly for a name that is neither of the two. -/
theorem chosenOrder_eq_error_iff :
    chosenOrder order = .error failure ↔
      Trouble d files common explicit fallback order 1 failure := by
  constructor
  · intro h
    unfold chosenOrder at h
    split at h
    · cases h
    · next name =>
      split at h <;> cases h
      next hunknown =>
      have hfirst : name ≠ "fix-then-format" := by
        rintro rfl
        cases hunknown
      have hsecond : name ≠ "format-then-fix" := by
        rintro rfl
        cases hunknown
      exact .unknownOrder rfl hfirst hsecond
  · intro h
    cases h with
    | unknownOrder hname hfirst hsecond =>
      simp [chosenOrder, StageOrder.ofName?, hname, hfirst, hsecond]

/-- Reading options fails exactly for a text that is no JSON or no object. -/
theorem chosenOptions_eq_error_iff {name : String} {given : Option String} :
    chosenOptions name given = .error failure ↔
      ∃ text, given = some text ∧
        ((Json.read? text = none ∧ failure = .notJson name) ∨
          ∃ v, Json.read? text = some v ∧ (∀ fields, v ≠ .object fields) ∧
            failure = .notObject name) := by
  cases given with
  | none => simp [chosenOptions]
  | some text =>
    rw [chosenOptions]
    cases hread : Json.read? text with
    | none => simp [hread, eq_comm]
    | some v => cases v <;> simp [hread, eq_comm]

/-- The third stage reads the options that lie below all others. -/
theorem fallback_eq_error_iff :
    chosenOptions "--fallback" fallback = .error failure ↔
      Trouble d files common explicit fallback order 2 failure := by
  rw [chosenOptions_eq_error_iff]
  constructor
  · rintro ⟨text, htext, ⟨hjson, rfl⟩ | ⟨v, hjson, hobject, rfl⟩⟩
    · exact .fallbackNotJson htext hjson
    · exact .fallbackNotObject htext hjson hobject
  · intro h
    cases h with
    | fallbackNotJson htext hjson => exact ⟨_, htext, .inl ⟨hjson, rfl⟩⟩
    | fallbackNotObject htext hjson hobject => exact ⟨_, htext, .inr ⟨_, hjson, hobject, rfl⟩⟩

/-- The fourth stage reads the options that lie above all others. -/
theorem explicit_eq_error_iff :
    chosenOptions "--options" explicit = .error failure ↔
      Trouble d files common explicit fallback order 3 failure := by
  rw [chosenOptions_eq_error_iff]
  constructor
  · rintro ⟨text, htext, ⟨hjson, rfl⟩ | ⟨v, hjson, hobject, rfl⟩⟩
    · exact .optionsNotJson htext hjson
    · exact .optionsNotObject htext hjson hobject
  · intro h
    cases h with
    | optionsNotJson htext hjson => exact ⟨_, htext, .inl ⟨hjson, rfl⟩⟩
    | optionsNotObject htext hjson hobject => exact ⟨_, htext, .inr ⟨_, hjson, hobject, rfl⟩⟩

/-- Loading the configuration that the caller names fails for no other reason than that loading its
file fails. -/
theorem chosenLintConfig_eq_error_iff {e : Effective} {file : Option String} :
    chosenLintConfig d e file = .error failure ↔
      ∃ name cause, file = some name ∧ d.loadLintConfig (.ofText name) = .error cause ∧
        failure = .lintConfig cause := by
  unfold chosenLintConfig
  cases file with
  | none => simp [bind, Except.bind, pure, Except.pure]
  | some name =>
    cases hload : d.loadLintConfig (.ofText name) <;>
      simp [hload, bind, Except.bind, pure, Except.pure, Except.mapError, eq_comm]

/-- The fifth stage loads the configuration that the caller names. -/
theorem lintConfig_eq_error_iff :
    chosenLintConfig d (inEffect d common none) common.lintConfig = .error failure ↔
      Trouble d files common explicit fallback order 4 failure := by
  rw [chosenLintConfig_eq_error_iff]
  constructor
  · rintro ⟨name, cause, hname, hload, rfl⟩
    rcases Disk.load_eq_error_iff.1 hload with
      ⟨reason, hread, rfl⟩ | ⟨text, reason, hread, hparse, rfl⟩
    · exact .lintConfigUnread hname hread
    · exact .lintConfigRefused hname hread hparse
  · intro h
    cases h with
    | lintConfigUnread hname hread =>
      exact ⟨_, _, hname, Disk.load_eq_error_iff.2 (.inl ⟨_, hread, rfl⟩), rfl⟩
    | lintConfigRefused hname hread hparse =>
      exact ⟨_, _, hname, Disk.load_eq_error_iff.2 (.inr ⟨_, _, hread, hparse, rfl⟩), rfl⟩

/-- The last stage loads the catalog, and fails only where a file is consulted for it. -/
theorem catalog_eq_error_iff :
    catalogInEffect d (inEffect d common none) = .error failure ↔
      Trouble d files common explicit fallback order 5 failure := by
  have hstage : catalogInEffect d (inEffect d common none) = .error failure ↔
      ∃ path cause, CatalogFile d common path ∧ d.loadCatalog path = .error cause ∧
        failure = .catalog cause := by
    simp only [← catalog_inEffect_iff]
    unfold catalogInEffect
    cases (inEffect d common none).catalog with
    | none => simp
    | some path =>
      cases hload : d.loadCatalog path <;> simp [hload, Except.mapError, eq_comm]
  rw [hstage]
  constructor
  · rintro ⟨path, cause, hpath, hload, rfl⟩
    rcases Disk.load_eq_error_iff.1 hload with
      ⟨reason, hread, rfl⟩ | ⟨text, reason, hread, hparse, rfl⟩
    · exact .catalogUnread hpath hread
    · exact .catalogRefused hpath hread hparse
  · intro h
    cases h with
    | catalogUnread hpath hread =>
      exact ⟨_, _, hpath, Disk.load_eq_error_iff.2 (.inl ⟨_, hread, rfl⟩), rfl⟩
    | catalogRefused hpath hread hparse =>
      exact ⟨_, _, hpath, Disk.load_eq_error_iff.2 (.inr ⟨_, _, hread, hparse, rfl⟩), rfl⟩

/-! ## The first stage with trouble -/

/-- Nothing is wrong before a stage. -/
def ClearBefore (d : Disk) (files : List String) (common : InspectOptions)
    (explicit fallback order : Option String) (stage : Nat) : Prop :=
  ∀ earlier < stage, ∀ failure, ¬ Trouble d files common explicit fallback order earlier failure

theorem ClearBefore.succ {stage : Nat}
    (h : ClearBefore d files common explicit fallback order stage)
    (hstage : ∀ failure, ¬ Trouble d files common explicit fallback order stage failure) :
    ClearBefore d files common explicit fallback order (stage + 1) := by
  intro earlier hlt
  rcases Nat.lt_succ_iff_lt_or_eq.1 hlt with hlt | rfl
  · exact h earlier hlt
  · exact hstage

/-- A failure comes from the first stage at which something is wrong. -/
theorem trouble_of_optionsReports_eq_error
    (h : optionsReports d files common explicit fallback order = .error failure) :
    ∃ stage, Trouble d files common explicit fallback order stage failure ∧
      ClearBefore d files common explicit fallback order stage := by
  have hzero : ClearBefore d files common explicit fallback order 0 := nofun
  by_cases hfiles : files = []
  · subst hfiles
    cases h
    exact ⟨0, .noFiles rfl, hzero⟩
  have hone := hzero.succ fun failure ht => by
    cases ht with
    | noFiles hnone => exact hfiles hnone
  have hclear : ∀ {α : Type} {x : Except CommandFailure α} {a : α} {stage : Nat},
      (∀ {failure}, x = .error failure ↔
        Trouble d files common explicit fallback order stage failure) → x = .ok a →
      ∀ failure, ¬ Trouble d files common explicit fallback order stage failure := by
    intro α x a stage hiff hok failure ht
    rw [hiff.2 ht] at hok
    cases hok
  rw [optionsReports_of_ne_nil hfiles] at h
  rcases bind_eq_error_iff.1 h with h | ⟨chosen, horder, h⟩
  · exact ⟨1, chosenOrder_eq_error_iff.1 h, hone⟩
  have htwo := hone.succ (hclear chosenOrder_eq_error_iff horder)
  rcases bind_eq_error_iff.1 h with h | ⟨below, hfallback, h⟩
  · exact ⟨2, fallback_eq_error_iff.1 h, htwo⟩
  have hthree := htwo.succ (hclear fallback_eq_error_iff hfallback)
  rcases bind_eq_error_iff.1 h with h | ⟨options, hexplicit, h⟩
  · exact ⟨3, explicit_eq_error_iff.1 h, hthree⟩
  have hfour := hthree.succ (hclear explicit_eq_error_iff hexplicit)
  rcases bind_eq_error_iff.1 h with h | ⟨lintConfig, hlint, h⟩
  · exact ⟨4, lintConfig_eq_error_iff.1 h, hfour⟩
  have hfive := hfour.succ (hclear lintConfig_eq_error_iff hlint)
  rcases bind_eq_error_iff.1 h with h | ⟨catalog, hcatalog, h⟩
  · exact ⟨5, catalog_eq_error_iff.1 h, hfive⟩
  · cases h

/-- Where something is wrong, nothing is reported. -/
theorem not_trouble_of_optionsReports_eq_ok {result : String × List OptionsReport}
    (h : optionsReports d files common explicit fallback order = .ok result) (stage : Nat) :
    ¬ Trouble d files common explicit fallback order stage failure := by
  obtain ⟨hfiles, chosen, below, options, lintConfig, catalog, horder, hfallback, hexplicit, hlint,
    hcatalog, -⟩ := optionsReports_eq_ok_iff.1 h
  intro ht
  have hstage : stage ≤ 5 := by cases ht <;> decide
  interval_cases stage
  · cases ht with
    | noFiles hnone => exact hfiles hnone
  · rw [chosenOrder_eq_error_iff.2 ht] at horder
    cases horder
  · rw [fallback_eq_error_iff.2 ht] at hfallback
    cases hfallback
  · rw [explicit_eq_error_iff.2 ht] at hexplicit
    cases hexplicit
  · rw [lintConfig_eq_error_iff.2 ht] at hlint
    cases hlint
  · rw [catalog_eq_error_iff.2 ht] at hcatalog
    cases hcatalog

/-- At one stage there is one thing wrong at most. -/
theorem Trouble.unique {stage : Nat} {other : CommandFailure}
    (h : Trouble d files common explicit fallback order stage failure)
    (hother : Trouble d files common explicit fallback order stage other) : failure = other := by
  have hsame : ∀ {α : Type} {x : Except CommandFailure α}, x = .error failure →
      x = .error other → failure = other := by
    intro α x hleft hright
    exact Except.error.inj (hleft.symm.trans hright)
  have hstage : stage ≤ 5 := by cases h <;> decide
  interval_cases stage
  · cases h
    cases hother
    rfl
  · exact hsame (chosenOrder_eq_error_iff.2 h) (chosenOrder_eq_error_iff.2 hother)
  · exact hsame (fallback_eq_error_iff.2 h) (fallback_eq_error_iff.2 hother)
  · exact hsame (explicit_eq_error_iff.2 h) (explicit_eq_error_iff.2 hother)
  · exact hsame (lintConfig_eq_error_iff.2 h) (lintConfig_eq_error_iff.2 hother)
  · exact hsame (catalog_eq_error_iff.2 h) (catalog_eq_error_iff.2 hother)

/-- The command fails exactly with the failure of the first stage at which something is wrong. -/
theorem optionsReports_eq_error_iff :
    optionsReports d files common explicit fallback order = .error failure ↔
      ∃ stage, Trouble d files common explicit fallback order stage failure ∧
        ClearBefore d files common explicit fallback order stage := by
  refine ⟨trouble_of_optionsReports_eq_error, ?_⟩
  rintro ⟨stage, ht, hclear⟩
  cases hreports : optionsReports d files common explicit fallback order with
  | ok result => exact absurd ht (not_trouble_of_optionsReports_eq_ok hreports stage)
  | error other =>
    obtain ⟨stage', ht', hclear'⟩ := trouble_of_optionsReports_eq_error hreports
    -- Both stages are the first one with trouble.
    rcases Nat.lt_trichotomy stage stage' with hlt | rfl | hlt
    · exact absurd ht (hclear' stage hlt failure)
    · rw [ht.unique ht']
    · exact absurd ht' (hclear stage' hlt other)

/-! ## What the stages look at -/

/-- Two disks with the same files where the command is told to look. -/
structure SameNamed (d d' : Disk) (common : InspectOptions) : Prop where
  lintConfig : ∀ name, common.lintConfig = some name →
    d'.readText (.ofText name) = d.readText (.ofText name)
  catalogFile : ∀ path, CatalogFile d' common path ↔ CatalogFile d common path
  catalog : ∀ path, CatalogFile d common path → d'.readText path = d.readText path

theorem SameNamed.symm {d' : Disk} (h : SameNamed d d' common) : SameNamed d' d common where
  lintConfig name hname := (h.lintConfig name hname).symm
  catalogFile path := (h.catalogFile path).symm
  catalog path hpath := (h.catalog path ((h.catalogFile path).1 hpath)).symm

/-- What is wrong on one disk is wrong on every other with the same files where the command looks.
-/
theorem Trouble.of_sameNamed {d' : Disk} {files' : List String} {stage : Nat}
    (hsame : SameNamed d d' common) (hfiles : files = [] → files' = [])
    (h : Trouble d files common explicit fallback order stage failure) :
    Trouble d' files' common explicit fallback order stage failure := by
  cases h with
  | noFiles hnone => exact .noFiles (hfiles hnone)
  | unknownOrder hname hfirst hsecond => exact .unknownOrder hname hfirst hsecond
  | fallbackNotJson htext hjson => exact .fallbackNotJson htext hjson
  | fallbackNotObject htext hjson hobject => exact .fallbackNotObject htext hjson hobject
  | optionsNotJson htext hjson => exact .optionsNotJson htext hjson
  | optionsNotObject htext hjson hobject => exact .optionsNotObject htext hjson hobject
  | lintConfigUnread hname hread =>
    exact .lintConfigUnread hname ((hsame.lintConfig _ hname).trans hread)
  | lintConfigRefused hname hread hparse =>
    exact .lintConfigRefused hname ((hsame.lintConfig _ hname).trans hread) hparse
  | catalogUnread hpath hread =>
    exact .catalogUnread ((hsame.catalogFile _).2 hpath) ((hsame.catalog _ hpath).trans hread)
  | catalogRefused hpath hread hparse =>
    exact .catalogRefused ((hsame.catalogFile _).2 hpath) ((hsame.catalog _ hpath).trans hread)
      hparse

theorem trouble_iff_of_sameNamed {d' : Disk} {files' : List String} {stage : Nat}
    (hsame : SameNamed d d' common) (hfiles : files' = [] ↔ files = []) :
    Trouble d' files' common explicit fallback order stage failure ↔
      Trouble d files common explicit fallback order stage failure :=
  ⟨Trouble.of_sameNamed hsame.symm hfiles.1, Trouble.of_sameNamed hsame hfiles.2⟩

/-- Settings that are spoilt or missing name no catalog. -/
theorem not_trouble_of_no_settings (hchoice : common.catalog = none)
    (hsettings : d.settings? (d.repositoryRoot (.ofText (common.start.getD "."))) = none) :
    ¬ Trouble d files common explicit fallback order 5 failure := by
  have hnone : ∀ path, ¬ CatalogFile d common path := by
    intro path hpath
    cases hpath with
    | chosen hname =>
      rw [hchoice] at hname
      cases hname
    | ofSettings _ hsome _ =>
      rw [hsettings] at hsome
      cases hsome
  intro h
  cases h with
  | catalogUnread hpath _ => exact hnone _ hpath
  | catalogRefused hpath _ _ => exact hnone _ hpath

/-- The written form of a configuration is accepted, whatever the patterns of its blocks are. -/
theorem not_trouble_of_written {name text : String} {config : LintConfig}
    (hname : common.lintConfig = some name) (hread : d.readText (.ofText name) = .ok text)
    (hwritten : (Notation.ofPath (.ofText name)).read? text = some config.toJson) :
    ¬ Trouble d files common explicit fallback order 4 failure := by
  intro h
  cases h with
  | lintConfigUnread hname' hread' =>
    rw [hname] at hname'
    cases hname'
    rw [hread] at hread'
    cases hread'
  | lintConfigRefused hname' hread' hparse =>
    rw [hname] at hname'
    cases hname'
    rw [hread] at hread'
    cases hread'
    simp [Notation.decode, hwritten, LintConfig.decode_toJson, Except.mapError] at hparse

/-! ## Lines -/

/-- What is said about the reports holds for the whole line that asks for them. -/
theorem runLine_eq_failure_iff {words : List String}
    (hread : read words = .ok (.options files common explicit fallback order)) (d : Disk)
    (colours : Bool) :
    runLine d colours words = .failure failure ↔
      ∃ stage, Trouble d files common explicit fallback order stage failure ∧
        ClearBefore d files common explicit fallback order stage := by
  rw [← optionsReports_eq_error_iff]
  cases hreports : optionsReports d files common explicit fallback order with
  | ok result =>
    rw [runLine_of_options_ok hread hreports colours]
    simp
  | error other =>
    rw [runLine_of_options_error hread hreports colours]
    simp

/-- A complete report. What the line chooses and what is in effect make up the request that all
files share, and there is one entry for each target, in the order of the files as they are shown. -/
def CompleteReport (d : Disk) (files : List String) (common : InspectOptions)
    (explicit fallback order : Option String) (output : String) (reports : List OptionsReport) :
    Prop :=
  ∃ chosen below options config catalog,
    GivenOrder order chosen ∧ GivenOptions fallback below ∧ GivenOptions explicit options ∧
    LoadedLintConfig d common config ∧ LoadedCatalog d common catalog ∧
    let e := d.effective
      { start := common.start, output := common.output, order := chosen, catalog := common.catalog }
    output = e.output ∧
    FormatRequest.ReportsOn
      { lintConfig := { config with extensions := config.extensions.or e.extensions }
        options
        fallback := e.fallback.overlay below
        order := e.order }
      e.root (d.resolver e.root) catalog (d.targets e.root files) reports

/-- Where the stages succeed, the report is complete. -/
theorem completeReport_of_optionsReports_eq_ok {output : String} {reports : List OptionsReport}
    (h : optionsReports d files common explicit fallback order = .ok (output, reports)) :
    CompleteReport d files common explicit fallback order output reports := by
  obtain ⟨-, chosen, below, options, lintConfig, catalog, horder, hfallback, hexplicit, hlint,
    hcatalog, hresult⟩ := optionsReports_eq_ok_iff.1 h
  rw [← chosenLintConfig_inEffect d common chosen, chosenLintConfig_eq_ok_iff] at hlint
  obtain ⟨config, hconfig, rfl⟩ := hlint
  obtain ⟨houtput, hreports⟩ := Prod.mk.inj hresult
  refine ⟨chosen, below, options, config, catalog, chosenOrder_eq_ok_iff.1 horder,
    chosenOptions_eq_ok_iff.1 hfallback, chosenOptions_eq_ok_iff.1 hexplicit, hconfig,
    catalogInEffect_eq_ok_iff.1 hcatalog, houtput.symm, ?_⟩
  rw [← hreports]
  exact FormatRequest.reportsOn_optionsReports ..

/-- A line that names the command for options fails exactly if something is wrong at one of the
stages, with the failure of the first of them. It then prints nothing and exits with 2. Every other
line prints the complete report, entry by entry and with a summary, and exits with 0. Neither other
targets nor another disk with the same files where the command is told to look make a difference,
spoilt settings name no catalog, and no pattern of a block keeps a configuration from being
loaded. -/
theorem options_fails_iff {words files : List String} {common : InspectOptions}
    {explicit fallback order : Option String}
    (hread : read words = .ok (.options files common explicit fallback order)) (d : Disk)
    (colours : Bool) :
    (∀ failure, runLine d colours words = .failure failure ↔
      ∃ stage, Trouble d files common explicit fallback order stage failure ∧
        ClearBefore d files common explicit fallback order stage) ∧
    (∀ failure, runLine d colours words = .failure failure →
      (runLine d colours words).output = "" ∧ (runLine d colours words).code = 2) ∧
    ((∀ failure, runLine d colours words ≠ .failure failure) →
      ∃ output reports, CompleteReport d files common explicit fallback order output reports ∧
        OptionsPrinted output colours reports (runLine d colours words).output ∧
        (runLine d colours words).code = 0) ∧
    (∀ (d' : Disk) (words' files' : List String),
      read words' = .ok (.options files' common explicit fallback order) →
      (files' = [] ↔ files = []) → SameNamed d d' common → ∀ failure,
        runLine d' colours words' = .failure failure ↔ runLine d colours words = .failure failure) ∧
    (common.catalog = none →
      d.settings? (d.repositoryRoot (.ofText (common.start.getD "."))) = none →
      ∀ failure, ¬ Trouble d files common explicit fallback order 5 failure) ∧
    ∀ (name text : String) (config : LintConfig), common.lintConfig = some name →
      d.readText (.ofText name) = .ok text →
      (Notation.ofPath (.ofText name)).read? text = some config.toJson →
      ∀ failure, ¬ Trouble d files common explicit fallback order 4 failure := by
  refine ⟨fun failure => runLine_eq_failure_iff hread d colours, ?_, ?_, ?_,
    fun hchoice hsettings _ => not_trouble_of_no_settings hchoice hsettings,
    fun _ _ _ hname htext hwritten _ => not_trouble_of_written hname htext hwritten⟩
  · intro failure hfailure
    rw [hfailure]
    exact ⟨rfl, rfl⟩
  · intro hnone
    cases hreports : optionsReports d files common explicit fallback order with
    | error failure =>
      exact absurd (runLine_of_options_error hread hreports colours) (hnone failure)
    | ok result =>
      obtain ⟨output, reports⟩ := result
      rw [runLine_of_options_ok hread hreports colours]
      exact ⟨output, reports, completeReport_of_optionsReports_eq_ok hreports,
        showOptions_eq_iff.1 rfl, rfl⟩
  · intro d' words' files' hread' hfiles hsame failure
    rw [runLine_eq_failure_iff hread' d' colours, runLine_eq_failure_iff hread d colours]
    simp only [ClearBefore, trouble_iff_of_sameNamed hsame hfiles]

/-- A disk on which everything that may be found is spoilt. -/
def spoiltDisk : Disk where
  tree := .directory [("lintfmt.toml", .file (some "[")), (".eslintrc.json", .file (some "?")),
    (".prettierrc", .file none)]
  cwd := []

/-- Of two options with useless values the order is reported, though the other stands before it. The
spoilt files and the pattern that stops short do not matter: the file that is named beside the
pattern is reported. Useful values show in the report. -/
theorem options_fails_on_spoiltDisk :
    runLine spoiltDisk false ["options", "--fallback", "1", "--order", "sideways", "a["] =
        .failure (.unknownOrder "sideways") ∧
      (runLine spoiltDisk false
        ["options", "--fallback", "1", "--order", "sideways", "a["]).output = "" ∧
      (runLine spoiltDisk false ["options", "a[", "a.js"]).code = 0 ∧
      (runLine spoiltDisk false ["options", "a[", "a.js"]).output =
        "a.js (fix-then-format)\n" ++ "  filepath: \"./a.js\"\n" ++
        "— Summary — files=1 fix_stage=1\n" ∧
      (runLine spoiltDisk true ["options", "--output", "json", "--order", "format-then-fix",
          "--fallback", "\x7b\"tabWidth\":3\x7d", "a.md"]).output =
        "\x7b\n" ++ "  \"results\": [\n" ++ "    \x7b\n" ++ "      \"file\": \"a.md\",\n" ++
        "      \"fixStage\": false,\n" ++ "      \"order\": \"format-then-fix\",\n" ++
        "      \"options\": \x7b\n" ++ "        \"tabWidth\": 3,\n" ++
        "        \"filepath\": \"./a.md\"\n" ++ "      \x7d\n" ++ "    \x7d\n" ++ "  ],\n" ++
        "  \"summary\": \x7b\n" ++ "    \"files\": 1,\n" ++ "    \"fixStage\": 0\n" ++ "  \x7d\n" ++
        "\x7d\n" := by
  have hread : read ["options", "--fallback", "1", "--order", "sideways", "a["] =
      .ok (.options ["a["] {} none (some "1") (some "sideways")) := by decide +kernel
  have hreadPlain : read ["options", "a[", "a.js"] =
      .ok (.options ["a[", "a.js"] {} none none none) := by decide +kernel
  obtain ⟨hfails, hprints, -⟩ := options_fails_iff hread spoiltDisk false
  obtain ⟨hplain, -, hreports, -, hsettings, -⟩ := options_fails_iff hreadPlain spoiltDisk false
  have hfailure : runLine spoiltDisk false
      ["options", "--fallback", "1", "--order", "sideways", "a["] =
        .failure (.unknownOrder "sideways") := by
    refine (hfails _).2 ⟨1, .unknownOrder rfl (by decide) (by decide), ?_⟩
    intro earlier hlt failure htrouble
    obtain rfl : earlier = 0 := Nat.lt_one_iff.1 hlt
    cases htrouble with
    | noFiles hnone => cases hnone
  have hspoilt : (spoiltDisk.settings? (spoiltDisk.repositoryRoot (.ofText
      (({} : InspectOptions).start.getD ".")))).isNone = true := by
    decide +kernel
  have hcatalog := hsettings rfl (Option.isNone_iff_eq_none.1 hspoilt)
  have hsuccess : ∀ failure,
      runLine spoiltDisk false ["options", "a[", "a.js"] ≠ .failure failure := by
    intro failure hfailure
    obtain ⟨stage, htrouble, -⟩ := (hplain failure).1 hfailure
    cases htrouble with
    | noFiles hnone => cases hnone
    | catalogUnread hpath hread => exact hcatalog _ (.catalogUnread hpath hread)
    | catalogRefused hpath hread hparse => exact hcatalog _ (.catalogRefused hpath hread hparse)
    | unknownOrder hgiven | fallbackNotJson hgiven | fallbackNotObject hgiven
    | optionsNotJson hgiven | optionsNotObject hgiven | lintConfigUnread hgiven
    | lintConfigRefused hgiven => cases hgiven
  obtain ⟨output, reports, -, -, hcode⟩ := hreports hsuccess
  exact ⟨hfailure, (hprints _ hfailure).1, hcode, by decide +kernel, by decide +kernel⟩

end Command
end Concord
