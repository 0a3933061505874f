import Concord.Command.Run
import Concord.Proofs.Command.Words

/-!
# The stages of the inspecting commands

Both commands go through stages that may fail: what the caller writes is read, then the files that
the caller names are loaded. `Command.optionsReports_of_ne_nil` and `Command.fixConfigReport_eq`
list the stages in their order. None of them depends on the order of the passes.
-/

namespace Concord

section Binding

variable {α β ε : Type} {x : Except ε α} {f : α → Except ε β}

/-- Two stages succeed if the first does and the second succeeds on its result. -/
theorem bind_eq_ok_iff {b : β} : x.bind f = .ok b ↔ ∃ a, x = .ok a ∧ f a = .ok b := by
  cases x <;> simp [Except.bind]

/-- Two stages fail if the first does, or if it succeeds and the second fails on its result. -/
theorem bind_eq_error_iff {failure : ε} :
    x.bind f = .error failure ↔ x = .error failure ∨ ∃ a, x = .ok a ∧ f a = .error failure := by
  cases x <;> simp [Except.bind]

end Binding

namespace Command

/-! ## Command lines -/

section Lines

variable {words : List String} {common : InspectOptions}

/-- A line for the fixing pass is read exactly if its words make one operand, and nothing but the
shared options. -/
theorem read_fixConfig_iff {file : String} :
    read ("fix-config" :: words) = .ok (.fixConfig file common) ↔
      ∃ w, Words.Reads inspectNames {} words w ∧ w.operands = [file] ∧
        inspectOptions w = common := by
  have hline : read ("fix-config" :: words) =
      (ofWords? "fix-config" words).getD (.error (stopAt "fix-config")) := rfl
  rw [hline, ofWords?, Option.getD_some]
  refine bind_eq_ok_iff.trans (exists_congr fun w => and_congr Words.read_eq_ok_iff ?_)
  split
  · next given hgiven => simp [hgiven, pure, Except.pure]
  · next hother =>
    simpa [throw, throwThe, MonadExceptOf.throw] using fun h => absurd h (hother file)

/-- A line for options may name any number of files and has three options of its own. -/
theorem read_options_iff {files : List String} {explicit fallback order : Option String} :
    read ("options" :: words) = .ok (.options files common explicit fallback order) ↔
      ∃ w, Words.Reads optionsNames {} words w ∧ w.operands = files ∧ inspectOptions w = common ∧
        w.value? "options" = explicit ∧ w.value? "fallback" = fallback ∧
          w.value? "order" = order := by
  have hline : read ("options" :: words) =
      (Words.read optionsNames {} words).bind fun w =>
        .ok (.options w.operands (inspectOptions w) (w.value? "options") (w.value? "fallback")
          (w.value? "order")) := rfl
  rw [hline, bind_eq_ok_iff]
  refine exists_congr fun w => and_congr Words.read_eq_ok_iff ?_
  simp

end Lines

/-! ## Stages -/

variable {d : Disk} {common : InspectOptions}

/-- Which order is chosen makes no difference to the configuration that is loaded. -/
theorem chosenLintConfig_inEffect (d : Disk) (common : InspectOptions) (order : Option StageOrder)
    (file : Option String) : chosenLintConfig d (inEffect d common order) file =
      chosenLintConfig d (inEffect d common none) file := by
  have hextensions :
      (inEffect d common order).extensions = (inEffect d common none).extensions := by
    simp only [inEffect, Disk.effective, Choices.fill]
  unfold chosenLintConfig
  rw [hextensions]

/-- Which order is chosen makes no difference to the catalog that is loaded. -/
theorem catalogInEffect_inEffect (d : Disk) (common : InspectOptions) (order : Option StageOrder) :
    catalogInEffect d (inEffect d common order) = catalogInEffect d (inEffect d common none) := by
  have hcatalog : (inEffect d common order).catalog = (inEffect d common none).catalog := by
    simp only [inEffect, Disk.effective, Choices.fill]
  rw [catalogInEffect, catalogInEffect, hcatalog]

section Options

variable {files : List String} {explicit fallback order : Option String}

/-- The request shared by all files of a command. -/
def template (e : Effective) (lintConfig : LintConfig) (options fallback : FormatOptions) :
    FormatRequest :=
  { lintConfig, options, fallback := e.fallback.overlay fallback, order := e.order }

theorem optionsReports_nil :
    optionsReports d [] common explicit fallback order = .error .noFiles := rfl

/-- With files to report on, the command for options goes through five stages in this order. Its
reports depend on what all of them give. -/
theorem optionsReports_of_ne_nil (hfiles : files ≠ []) :
    optionsReports d files common explicit fallback order =
      (chosenOrder order).bind fun order =>
      (chosenOptions "--fallback" fallback).bind fun fallback =>
      (chosenOptions "--options" explicit).bind fun options =>
      (chosenLintConfig d (inEffect d common none) common.lintConfig).bind fun lintConfig =>
      (catalogInEffect d (inEffect d common none)).bind fun catalog =>
        let e := inEffect d common order
        .ok (e.output, (template e lintConfig options fallback).optionsReports e.root
          (d.resolver e.root) catalog (d.targets e.root files)) := by
  unfold optionsReports
  simp only [List.isEmpty_iff, hfiles, if_false]
  simp only [chosenLintConfig_inEffect d common, catalogInEffect_inEffect d common]
  rfl

/-- The command for options succeeds exactly if there are files and every stage succeeds. -/
theorem optionsReports_eq_ok_iff {result : String × List OptionsReport} :
    optionsReports d files common explicit fallback order = .ok result ↔
      files ≠ [] ∧ ∃ chosen below options lintConfig catalog,
        chosenOrder order = .ok chosen ∧ chosenOptions "--fallback" fallback = .ok below ∧
        chosenOptions "--options" explicit = .ok options ∧
        chosenLintConfig d (inEffect d common none) common.lintConfig = .ok lintConfig ∧
        catalogInEffect d (inEffect d common none) = .ok catalog ∧
        let e := inEffect d common chosen
        (e.output, (template e lintConfig options below).optionsReports e.root
          (d.resolver e.root) catalog (d.targets e.root files)) = result := by
  by_cases hfiles : files = []
  · subst hfiles
    simp [optionsReports_nil]
  · rw [optionsReports_of_ne_nil hfiles]
    simp only [bind_eq_ok_iff, Except.ok.injEq, hfiles, ne_eq, not_false_eq_true, true_and,
      exists_and_left]

end Options

/-- The command for the fixing pass goes through the last two of these stages only. -/
theorem fixConfigReport_eq (d : Disk) (file : String) (common : InspectOptions) :
    fixConfigReport d file common =
      (chosenLintConfig d (inEffect d common none) common.lintConfig).bind fun lintConfig =>
      (catalogInEffect d (inEffect d common none)).bind fun catalog =>
        let e := inEffect d common none
        .ok (e.output, FormatRequest.fixConfigReport { lintConfig } e.root (d.resolver e.root)
          catalog (e.root.join (.ofText file))) :=
  rfl

/-! ## Endings -/

section Endings

variable {words : List String} {files : List String} {explicit fallback order : Option String}
  {file : String} {output : String} {failure : CommandFailure}

/-- A line whose stages all succeed prints its reports. -/
theorem runLine_of_options_ok {reports : List OptionsReport}
    (hread : read words = .ok (.options files common explicit fallback order))
    (h : optionsReports d files common explicit fallback order = .ok (output, reports))
    (colours : Bool) :
    runLine d colours words = .success (showOptions output colours reports) := by
  rw [runLine, hread]
  simp only [run, h]
  rfl

/-- A line one of whose stages fails ends with that failure. -/
theorem runLine_of_options_error
    (hread : read words = .ok (.options files common explicit fallback order))
    (h : optionsReports d files common explicit fallback order = .error failure)
    (colours : Bool) : runLine d colours words = .failure failure := by
  rw [runLine, hread]
  simp only [run, h]
  rfl

theorem runLine_of_fixConfig_ok {report : FixConfigReport}
    (hread : read words = .ok (.fixConfig file common))
    (h : fixConfigReport d file common = .ok (output, report)) (colours : Bool) :
    runLine d colours words = .success (showFixConfig output colours report) := by
  rw [runLine, hread]
  simp only [run, h]
  rfl

theorem runLine_of_fixConfig_error (hread : read words = .ok (.fixConfig file common))
    (h : fixConfigReport d file common = .error failure) (colours : Bool) :
    runLine d colours words = .failure failure := by
  rw [runLine, hread]
  simp only [run, h]
  rfl

end Endings
end Command
end Concord
