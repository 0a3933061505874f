import Concord.Proofs.Command.Stages
import Concord.Proofs.Lookup.Files

/-!
# What a command line chooses

A line writes its choices as texts and names its files. Where nothing is wrong with them they come
to an order of the passes, to options for the formatter, to a linter configuration and to a catalog
of rules. Each of these is described by a relation, and a stage of the commands succeeds with what
stands in the relation and with nothing else.
-/

namespace Concord.Command

/-- The order of the passes that a name stands for. Without a name none is chosen. -/
inductive GivenOrder : Option String → Option StageOrder → Prop where
  | nothing : GivenOrder none none
  | fixThenFormat : GivenOrder (some "fix-then-format") (some .fixThenFormat)
  | formatThenFix : GivenOrder (some "format-then-fix") (some .formatThenFix)

/-- The formatter options that a text gives, which has to be a JSON object. Without a text there are
none. -/
inductive GivenOptions : Option String → FormatOptions → Prop where
  | nothing : GivenOptions none .empty
  | object {text : String} {fields : List (String × Json)}
      (hjson : Json.read? text = some (.object fields)) :
      GivenOptions (some text) (.ofFields fields)

/-- The linter configuration in the file that the caller names, or the empty one. -/
inductive LoadedLintConfig (d : Disk) (common : InspectOptions) : LintConfig → Prop where
  | nothing (hname : common.lintConfig = none) : LoadedLintConfig d common {}
  | named {name text : String} {config : LintConfig} (hname : common.lintConfig = some name)
      (hread : d.readText (.ofText name) = .ok text)
      (hparse : (Notation.ofPath (.ofText name)).decode LintConfig.decode text = .ok config) :
      LoadedLintConfig d common config

/-- The file that is consulted for the catalog of rules. -/
inductive CatalogFile (d : Disk) (common : InspectOptions) : Path → Prop where
  | chosen {name : String} (hname : common.catalog = some name) :
      CatalogFile d common (.ofText name)
  | ofSettings {settings : Settings} {name : String} (hchoice : common.catalog = none)
      (hsettings : d.settings? (d.repositoryRoot (.ofText (common.start.getD "."))) =
        some settings)
      (hname : settings.catalog = some name) :
      CatalogFile d common
        ((d.repositoryRoot (.ofText (common.start.getD "."))).join (.ofText name))

/-- The catalog in the file that is consulted for it, or the built-in one. -/
inductive LoadedCatalog (d : Disk) (common : InspectOptions) : Catalog → Prop where
  | nothing (hnone : ∀ path, ¬ CatalogFile d common path) : LoadedCatalog d common .fallback
  | file {path : Path} {text : String} {catalog : Catalog} (hpath : CatalogFile d common path)
      (hread : d.readText path = .ok text) (hparse : Catalog.read text = .ok catalog) :
      LoadedCatalog d common catalog

section Texts

variable {given : Option String}

/-- The stage that reads the order succeeds exactly for the two names and without one. -/
theorem chosenOrder_eq_ok_iff {chosen : Option StageOrder} :
    chosenOrder given = .ok chosen ↔ GivenOrder given chosen := by
  constructor
  · intro h
    unfold chosenOrder at h
    split at h
    · cases h
      exact .nothing
    · next name =>
      split at h <;> cases h
      next order hname =>
      unfold StageOrder.ofName? at hname
      split_ifs at hname with hfirst hsecond
      · cases hname
        exact hfirst ▸ .fixThenFormat
      · cases hname
        exact hsecond ▸ .formatThenFix
  · intro h
    cases h <;> rfl

/-- The stages that read options succeed exactly for an object and without a text. -/
theorem chosenOptions_eq_ok_iff {name : String} {options : FormatOptions} :
    chosenOptions name given = .ok options ↔ GivenOptions given options := by
  constructor
  · intro h
    unfold chosenOptions at h
    split at h
    · cases h
      exact .nothing
    · split at h <;> cases h
      next hjson => exact .object hjson
  · intro h
    cases h with
    | nothing => rfl
    | object hjson => simp only [chosenOptions, hjson]

end Texts

section Files

variable {d : Disk} {common : InspectOptions}

/-- The configuration that is loaded is completed by the extensions of the settings. -/
theorem chosenLintConfig_eq_ok_iff {e : Effective} {result : LintConfig} :
    chosenLintConfig d e common.lintConfig = .ok result ↔
      ∃ config, LoadedLintConfig d common config ∧
        { config with extensions := config.extensions.or e.extensions } = result := by
  have hstage : chosenLintConfig d e common.lintConfig = .ok result ↔ ∃ config : LintConfig,
      (common.lintConfig = none ∧ config = {} ∨ ∃ name, common.lintConfig = some name ∧
        d.loadLintConfig (.ofText name) = .ok config) ∧
      { config with extensions := config.extensions.or e.extensions } = result := by
    unfold chosenLintConfig
    cases common.lintConfig with
    | none => simp [bind, Except.bind, pure, Except.pure]
    | some name =>
      cases hload : d.loadLintConfig (.ofText name) <;>
        simp [hload, bind, Except.bind, pure, Except.pure, Except.mapError]
  rw [hstage]
  refine exists_congr fun config => and_congr_left fun _ => ⟨?_, fun h => ?_⟩
  · rintro (⟨hname, rfl⟩ | ⟨name, hname, hload⟩)
    · exact .nothing hname
    · obtain ⟨text, hread, hparse⟩ := Disk.load_eq_ok_iff.1 hload
      exact .named hname hread hparse
  · cases h with
    | nothing hname => exact .inl ⟨hname, rfl⟩
    | named hname hread hparse =>
      exact .inr ⟨_, hname, Disk.load_eq_ok_iff.2 ⟨_, hread, hparse⟩⟩

/-- What the caller chooses comes before what the settings say. -/
theorem catalog_inEffect_iff {path : Path} :
    (inEffect d common none).catalog = some path ↔ CatalogFile d common path := by
  simp only [inEffect, Disk.effective, Choices.fill, Option.or_eq_some_iff, Option.map_eq_some_iff,
    Option.map_eq_none_iff]
  constructor
  · rintro (⟨name, hname, rfl⟩ | ⟨hchoice, name, hname, rfl⟩)
    · exact .chosen hname
    · cases hsettings : d.settings? (d.repositoryRoot (.ofText (common.start.getD "."))) with
      | none => simp [hsettings] at hname
      | some settings =>
        rw [hsettings] at hname
        exact .ofSettings hchoice hsettings hname
  · intro h
    cases h with
    | chosen hname => exact .inl ⟨_, hname, rfl⟩
    | ofSettings hchoice hsettings hname =>
      refine .inr ⟨hchoice, _, ?_, rfl⟩
      rw [hsettings]
      exact hname

/-- The stage that loads the catalog succeeds with what is in the file that is consulted. -/
theorem catalogInEffect_eq_ok_iff {catalog : Catalog} :
    catalogInEffect d (inEffect d common none) = .ok catalog ↔ LoadedCatalog d common catalog := by
  cases hfile : (inEffect d common none).catalog with
  | none =>
    have hnone : ∀ path, ¬ CatalogFile d common path := by
      intro path hpath
      rw [catalog_inEffect_iff.2 hpath] at hfile
      cases hfile
    simp only [catalogInEffect, hfile, Except.ok.injEq]
    constructor
    · rintro rfl
      exact .nothing hnone
    · intro h
      cases h with
      | nothing => rfl
      | file hpath => exact absurd hpath (hnone _)
  | some path =>
    have hpath := catalog_inEffect_iff.1 hfile
    have hload : catalogInEffect d (inEffect d common none) = .ok catalog ↔
        d.loadCatalog path = .ok catalog := by
      simp only [catalogInEffect, hfile]
      cases d.loadCatalog path <;> simp [Except.mapError]
    rw [hload, Disk.loadCatalog, Disk.load_eq_ok_iff]
    constructor
    · rintro ⟨text, hread, hparse⟩
      exact .file hpath hread hparse
    · intro h
      cases h with
      | nothing hnone => exact absurd hpath (hnone path)
      | file hpath' hread hparse =>
        rw [← catalog_inEffect_iff, hfile] at hpath'
        cases hpath'
        exact ⟨_, hread, hparse⟩

end Files

end Concord.Command
