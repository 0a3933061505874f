import Concord.Proofs.Command.Chosen
import Concord.Proofs.Format.Layers
import Concord.Proofs.Inspection.Printed
import Concord.Proofs.Inspection.Reports

/-!
# The two inspecting commands agree

For a file that is named without special characters, the command for options and the command for
the fixing pass go through the same stages and show the same file. The one reports through a plan,
the other puts the configuration of the fixing pass together by itself; both come to the same, and
what they print says so (`Command.options_agrees_fixConfig`).
-/

namespace Concord.Command

variable {words : List String} {file : String} {common : InspectOptions}

/-- The words of a line about one file mean the same to the other command, which is given none of
its own options. -/
theorem read_options_of_fixConfig
    (h : read ("fix-config" :: words) = .ok (.fixConfig file common)) :
    read ("options" :: words) = .ok (.options [file] common none none none) := by
  obtain ⟨w, hreads, hfile, hcommon⟩ := read_fixConfig_iff.1 h
  have hmore : ∀ name ∈ inspectNames, name ∈ optionsNames := by decide
  refine read_options_iff.2 ⟨w, hreads.mono hmore, hfile, hcommon, ?_, ?_, ?_⟩
  · exact hreads.value?_eq_none (by decide)
  · exact hreads.value?_eq_none (by decide)
  · exact hreads.value?_eq_none (by decide)

/-- A text without special characters names one target. -/
theorem targets_of_plain (hplain : ∀ c ∈ file.toList, c ≠ '*' ∧ c ≠ '?' ∧ c ≠ '[') (d : Disk)
    (root : Path) : d.targets root [file] = [root.join (.ofText file)] := by
  rw [Disk.targets, List.flatMap_singleton, Disk.named_of_plain hplain, List.mergeSort_singleton]
  rfl

/-- What two reports on a file have to do with each other and with a plan. -/
structure Agree (plan : Plan) (options : OptionsReport) (fixing : FixConfigReport) : Prop where
  file : options.file = fixing.file
  fixStage : options.fixStage = fixing.fixStage
  config : plan.fix = if fixing.fixStage then some fixing.config else none
  formatting : options.options = plan.formatting
  order : options.order = plan.order

/-- Where the plan has a fixing pass, the report shows the configuration of that pass. -/
theorem Agree.eq_of_fix_eq_some {plan : Plan} {options : OptionsReport} {fixing : FixConfigReport}
    {config : FixConfig} (h : Agree plan options fixing) (hfix : plan.fix = some config) :
    fixing = { file := options.file, fixStage := true, disabled := fixing.disabled, config } := by
  obtain ⟨file, fixStage, disabled, shown⟩ := fixing
  have hconfig := h.config.symm.trans hfix
  have hfile := h.file
  cases fixStage with
  | false => cases hconfig
  | true =>
    cases hconfig
    simp only at hfile ⊢
    rw [hfile]

/-- The request that both commands make for a file. What is in effect completes the configuration
that the caller names. -/
def requestFor (e : Effective) (config : LintConfig) (file : String) : FormatRequest where
  file := some (e.root.join (.ofText file))
  lintConfig := { config with extensions := config.extensions.or e.extensions }
  fallback := e.fallback
  order := e.order

/-- The report on a fixing pass looks at the linter configuration of a request alone. -/
theorem agree_reports (e : Effective) (config : LintConfig) (file : String) (resolver : Resolver)
    (catalog : Catalog) :
    let lintConfig := { config with extensions := config.extensions.or e.extensions }
    let path := e.root.join (.ofText file)
    Agree ((requestFor e config file).plan resolver catalog)
      ((template e lintConfig .empty .empty).optionsReport e.root resolver catalog path)
      (FormatRequest.fixConfigReport { lintConfig } e.root resolver catalog path) := by
  intro lintConfig path
  have hrequest :
      (template e lintConfig .empty .empty).forFile path = requestFor e config file := by
    rw [FormatRequest.forFile, template, FormatOptions.overlay_empty]
    rfl
  have hfix : ((requestFor e config file).plan resolver catalog).fix =
      if (FormatRequest.fixConfigReport { lintConfig } e.root resolver catalog path).fixStage then
        some (FormatRequest.fixConfigReport { lintConfig } e.root resolver catalog path).config
      else none := rfl
  rw [FormatRequest.optionsReport, hrequest]
  refine ⟨rfl, ?_, hfix, rfl, rfl⟩
  show ((requestFor e config file).plan resolver catalog).fix.isSome =
    (FormatRequest.fixConfigReport { lintConfig } e.root resolver catalog path).fixStage
  rw [hfix]
  split <;> simp_all

/-- For one plain file the command for options goes through the two stages that load files, and
reports on that file alone. -/
theorem optionsReports_of_plain (hplain : ∀ c ∈ file.toList, c ≠ '*' ∧ c ≠ '?' ∧ c ≠ '[')
    (d : Disk) (common : InspectOptions) :
    optionsReports d [file] common none none none =
      (chosenLintConfig d (inEffect d common none) common.lintConfig).bind fun lintConfig =>
      (catalogInEffect d (inEffect d common none)).bind fun catalog =>
        let e := inEffect d common none
        .ok (e.output, [(template e lintConfig .empty .empty).optionsReport e.root
          (d.resolver e.root) catalog (e.root.join (.ofText file))]) := by
  rw [optionsReports_of_ne_nil (List.cons_ne_nil file [])]
  simp only [targets_of_plain hplain, FormatRequest.optionsReports_singleton]
  rfl

/-- Both commands end with the failure of the same stage, or both report and agree. -/
theorem agree_or_failure (d : Disk) (common : InspectOptions)
    (hplain : ∀ c ∈ file.toList, c ≠ '*' ∧ c ≠ '?' ∧ c ≠ '[') :
    (∃ failure, optionsReports d [file] common none none none = .error failure ∧
      fixConfigReport d file common = .error failure) ∨
    ∃ config catalog options fixing,
      let e := inEffect d common none
      LoadedLintConfig d common config ∧ LoadedCatalog d common catalog ∧
      optionsReports d [file] common none none none = .ok (e.output, [options]) ∧
      fixConfigReport d file common = .ok (e.output, fixing) ∧
      options.file = (e.root.join (.ofText file)).shownFrom e.root ∧
      Agree ((requestFor e config file).plan (d.resolver e.root) catalog) options fixing := by
  have hoptions := optionsReports_of_plain hplain d common
  have hfixing := fixConfigReport_eq d file common
  cases hlint : chosenLintConfig d (inEffect d common none) common.lintConfig with
  | error failure =>
    rw [hlint] at hoptions hfixing
    exact .inl ⟨failure, hoptions, hfixing⟩
  | ok lintConfig =>
    rw [hlint] at hoptions hfixing
    obtain ⟨config, hconfig, rfl⟩ := chosenLintConfig_eq_ok_iff.1 hlint
    cases hcatalog : catalogInEffect d (inEffect d common none) with
    | error failure =>
      rw [hcatalog] at hoptions hfixing
      exact .inl ⟨failure, hoptions, hfixing⟩
    | ok catalog =>
      rw [hcatalog] at hoptions hfixing
      exact .inr ⟨config, catalog, _, _, hconfig, catalogInEffect_eq_ok_iff.1 hcatalog, hoptions,
        hfixing, rfl, agree_reports _ config file _ catalog⟩

/-- A line about one file that is named without special characters can be given to either command.
Both end with the same failure, or both report and print what they report: the command for options
on that file alone, with the same file and the same answer to whether there is a fixing pass. If
there is one, the other command prints the configuration that the plan hands to the linter. -/
theorem options_agrees_fixConfig {words : List String} {file : String} {common : InspectOptions}
    (hread : read ("fix-config" :: words) = .ok (.fixConfig file common))
    (hplain : ∀ c ∈ file.toList, c ≠ '*' ∧ c ≠ '?' ∧ c ≠ '[') (d : Disk) (colours : Bool) :
    read ("options" :: words) = .ok (.options [file] common none none none) ∧
    ((∃ failure, runLine d colours ("options" :: words) = .failure failure ∧
      runLine d colours ("fix-config" :: words) = .failure failure) ∨
    ∃ lintConfig catalog options fixing optionsText fixingText,
      let e := d.effective
        { start := common.start, output := common.output, catalog := common.catalog }
      let plan := (requestFor e lintConfig file).plan (d.resolver e.root) catalog
      LoadedLintConfig d common lintConfig ∧ LoadedCatalog d common catalog ∧
      runLine d colours ("options" :: words) = .success optionsText ∧
      OptionsPrinted e.output colours [options] optionsText ∧
      runLine d colours ("fix-config" :: words) = .success fixingText ∧
      FixConfigPrinted e.output colours fixing fixingText ∧
      options.file = (e.root.join (.ofText file)).shownFrom e.root ∧
      Agree plan options fixing ∧
      ∀ config, plan.fix = some config → FixConfigPrinted e.output colours
        { file := options.file, fixStage := true, disabled := fixing.disabled, config }
        fixingText) := by
  have hoptions := read_options_of_fixConfig hread
  refine ⟨hoptions, ?_⟩
  rcases agree_or_failure d common hplain with
    ⟨failure, hleft, hright⟩ | ⟨lintConfig, catalog, options, fixing, hlint, hcatalog, hleft,
      hright, hshown, hagree⟩
  · exact .inl ⟨failure, runLine_of_options_error hoptions hleft colours,
      runLine_of_fixConfig_error hread hright colours⟩
  · refine .inr ⟨lintConfig, catalog, options, fixing, _, _, hlint, hcatalog,
      runLine_of_options_ok hoptions hleft colours, showOptions_eq_iff.1 rfl,
      runLine_of_fixConfig_ok hread hright colours, showFixConfig_eq_iff.1 rfl, hshown, hagree, ?_⟩
    intro config hfix
    rw [← hagree.eq_of_fix_eq_some hfix]
    exact showFixConfig_eq_iff.1 rfl

/-- A disk whose configuration has a rule that cannot be repaired beside one that can. -/
def ruledDisk : Disk where
  tree := .directory [(".eslintrc.json",
    .file (some "\x7b\"rules\":\x7b\"no-with\":2,\"semi\":[2,\"never\"]\x7d\x7d"))]
  cwd := []

/-- Both commands print something about the same file, and what the second one prints ends with the
configuration of the pass. -/
theorem agree_on_ruledDisk :
    ∃ options fixing,
      (runLine ruledDisk false ["options", "a.ts"]).output =
        "a.ts (fix-then-format)\n" ++ "  semi: false\n" ++ "  filepath: \"./a.ts\"\n" ++
        "— Summary — files=1 fix_stage=1\n" ∧
      OptionsPrinted "human" false [options] (runLine ruledDisk false ["options", "a.ts"]).output ∧
      (runLine ruledDisk false ["fix-config", "a.ts"]).output =
        "a.ts (fix stage runs)\n" ++ "  off (not fixable): no-with\n" ++ "\x7b\n" ++
        "  \"discoverConfig\": false,\n" ++ "  \"fix\": true,\n" ++ "  \"rules\": \x7b\n" ++
        "    \"no-with\": \"off\",\n" ++ "    \"semi\": [\n" ++ "      \"error\",\n" ++
        "      \"never\"\n" ++ "    ]\n" ++ "  \x7d,\n" ++ "  \"settings\": \x7b\x7d,\n" ++
        "  \"globals\": [],\n" ++ "  \"env\": \x7b\x7d,\n" ++ "  \"plugins\": [],\n" ++
        "  \"parser\": \"@typescript-eslint/parser\",\n" ++ "  \"parserOptions\": \x7b\x7d,\n" ++
        "  \"extensions\": [\n" ++ "    \".js\",\n" ++ "    \".jsx\",\n" ++ "    \".ts\",\n" ++
        "    \".tsx\",\n" ++ "    \".mjs\",\n" ++ "    \".vue\"\n" ++ "  ]\n" ++ "\x7d\n" ∧
      FixConfigPrinted "human" false fixing
        (runLine ruledDisk false ["fix-config", "a.ts"]).output ∧
      options.file = "a.ts" ∧ fixing.file = "a.ts" ∧ options.fixStage = fixing.fixStage := by
  have hread : read ("fix-config" :: ["a.ts"]) = .ok (.fixConfig "a.ts" {}) := by decide +kernel
  have hplain : ∀ c ∈ "a.ts".toList, c ≠ '*' ∧ c ≠ '?' ∧ c ≠ '[' := by simp
  have houtput : (ruledDisk.effective {}).output = "human" := by decide +kernel
  obtain ⟨-, ⟨failure, hfailure, -⟩ |
    ⟨lintConfig, catalog, options, fixing, optionsText, fixingText, -, -, hleft, hoptions, hright,
      hfixing, hshown, hagree, -⟩⟩ :=
    options_agrees_fixConfig hread hplain ruledDisk false
  · have hcode : (runLine ruledDisk false ["options", "a.ts"]).code = 0 := by decide +kernel
    rw [hfailure] at hcode
    cases hcode
  · rw [houtput] at hoptions hfixing
    have hfile : options.file = "a.ts" := hshown.trans (by decide +kernel)
    refine ⟨options, fixing, by decide +kernel, ?_, by decide +kernel, ?_, hfile,
      hagree.file.symm.trans hfile, hagree.fixStage⟩
    · rw [hleft]
      exact hoptions
    · rw [hright]
      exact hfixing

end Concord.Command
