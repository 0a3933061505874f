import Concord.Proofs.Derivation.Resolution
import Concord.Proofs.Lookup.FormatSearch
import Concord.Proofs.Settings.Document
import Concord.Settings.Effective

/-!
# The settings in effect

`Disk.InEffect` describes what is in effect for a caller's choices without searching for it: which
directory is the repository, which file says what is set there, and where each value is taken from.
`Disk.effective_eq_iff` says that this is what the search comes to. A file of settings counts as a
whole or not at all, and no file but the first one of the repository counts.
-/

namespace Concord

/-! ## What a settings file says -/

namespace Settings

/-- The settings that a text describes, the text being TOML if the name of the file says so, and
YAML otherwise. -/
inductive WrittenIn (file : Path) (text : String) : Settings → Prop where
  | toml {entries : List (String × Toml.Value)} {s : Settings}
      (hname : file.extension? = some "toml") (htext : Toml.read? text = some (.table entries))
      (hs : Describe Toml.Value.readings entries s) : WrittenIn file text s
  | yaml {node : Yaml.Node} {entries : List (Yaml.Node × Yaml.Node)}
      {fields : List (String × Yaml.Node)} {s : Settings}
      (hname : file.extension? ≠ some "toml") (htext : Yaml.read? text = some (some node))
      (hentries : node.entries? = some entries) (hfields : NamedEntries entries fields)
      (hs : Describe Yaml.Node.readings fields s) : WrittenIn file text s
  /-- An empty YAML document leaves every setting open. -/
  | blank (hname : file.extension? ≠ some "toml") (htext : Yaml.read? text = some none) :
      WrittenIn file text {}

/-- A text in which a field has the name of a setting and a value that is no such setting. -/
inductive MalformedIn (file : Path) (text : String) : Prop where
  | toml {entries : List (String × Toml.Value)} {name : String} {v : Toml.Value}
      (hname : file.extension? = some "toml") (htext : Toml.read? text = some (.table entries))
      (hfield : (name, v) ∈ entries) (h : Malformed Toml.Value.readings name v) :
      MalformedIn file text
  | yaml {node : Yaml.Node} {entries : List (Yaml.Node × Yaml.Node)}
      {fields : List (String × Yaml.Node)} {name : String} {v : Yaml.Node}
      (hname : file.extension? ≠ some "toml") (htext : Yaml.read? text = some (some node))
      (hentries : node.entries? = some entries) (hfields : NamedEntries entries fields)
      (hfield : (name, v) ∈ fields) (h : Malformed Yaml.Node.readings name v) :
      MalformedIn file text

/-- The names of entries can be read in one way only. -/
theorem NamedEntries.unique {entries : List (Yaml.Node × Yaml.Node)}
    {fields others : List (String × Yaml.Node)} (h : NamedEntries entries fields)
    (hothers : NamedEntries entries others) : fields = others := by
  rw [← mapM_named_eq_some_iff] at h hothers
  exact Option.some.inj (h.symm.trans hothers)

/-- One malformed field spoils the whole text. -/
theorem MalformedIn.not_writtenIn {file : Path} {text : String} {s : Settings}
    (h : MalformedIn file text) : ¬ WrittenIn file text s := by
  intro hs
  cases h with
  | toml hname htext hfield h =>
    cases hs with
    | toml _ htext' hs =>
      cases htext.symm.trans htext'
      exact not_describe_of_malformed hfield h hs
    | yaml hother => exact hother hname
    | blank hother => exact hother hname
  | yaml hname htext hentries hfields hfield h =>
    cases hs with
    | toml htoml => exact hname htoml
    | yaml _ htext' hentries' hfields' hs =>
      cases htext.symm.trans htext'
      cases hentries.symm.trans hentries'
      cases hfields.unique hfields'
      exact not_describe_of_malformed hfield h hs
    | blank _ htext' => cases htext.symm.trans htext'

/-- What is written in a file is read in the notation that its extension stands for. -/
theorem writtenIn_iff {file : Path} {text : String} {s : Settings} :
    WrittenIn file text s ↔
      (if file.extension? = some "toml" then ofToml? text else ofYaml? text) = some s := by
  by_cases hname : file.extension? = some "toml"
  · rw [if_pos hname, ofToml?_eq_some_iff]
    constructor
    · intro h
      cases h with
      | toml _ htext hs => exact ⟨_, htext, hs⟩
      | yaml hother => exact absurd hname hother
      | blank hother => exact absurd hname hother
    · rintro ⟨entries, htext, hs⟩
      exact .toml hname htext hs
  · rw [if_neg hname, ofYaml?_eq_some_iff]
    constructor
    · intro h
      cases h with
      | toml htoml => exact absurd htoml hname
      | yaml _ htext hentries hfields hs => exact .inr ⟨_, _, _, htext, hentries, hfields, hs⟩
      | blank _ htext => exact .inl ⟨htext, rfl⟩
    · rintro (⟨htext, rfl⟩ | ⟨node, entries, fields, htext, hentries, hfields, hs⟩)
      · exact .blank hname htext
      · exact .yaml hname htext hentries hfields hs

end Settings

namespace Disk

variable {d e : Disk} {root file : Path} {s : Settings} {c : Choices} {result : Effective}

/-- The settings of a repository: what the first of its settings files that exists says. -/
def HasSettings (d : Disk) (root : Path) (s : Settings) : Prop :=
  ∃ file text, IsFirst d.pathExists (settingsFileNames.map root.entry) file ∧
    d.readText file = .ok text ∧ s.WrittenIn file text

/-- The settings in a file are what is written there, if it can be read. -/
theorem settingsIn?_eq_some_iff :
    d.settingsIn? file = some s ↔ ∃ text, d.readText file = .ok text ∧ s.WrittenIn file text := by
  unfold settingsIn?
  cases d.readText file with
  | error reason => simp
  | ok text => simp [Settings.writtenIn_iff]

/-- The settings of a repository are those in the first of its settings files. -/
theorem settings?_eq_some_iff : d.settings? root = some s ↔ d.HasSettings root s := by
  simp only [settings?, Option.bind_eq_some_iff, settingsIn?_eq_some_iff, HasSettings, isFirst_iff,
    exists_and_left]

/-! ## The repository -/

/-- The repository around a start: the nearest directory that is marked as one, or the start itself
if none is marked. -/
def IsRoot (d : Disk) (start root : Path) : Prop :=
  IsFirst d.isRepository start.ancestors root ∨
    (∀ directory ∈ start.ancestors, d.isRepository directory = false) ∧ root = start

/-- The repository that is found is the one that is described. -/
theorem repositoryRoot_eq_iff {start : Path} :
    d.repositoryRoot start = root ↔ d.IsRoot start root := by
  unfold repositoryRoot IsRoot
  rw [isFirst_iff]
  cases hfound : start.ancestors.find? d.isRepository with
  | none =>
    have hnone : ∀ directory ∈ start.ancestors, d.isRepository directory = false := by
      simpa using hfound
    rw [Option.getD_none]
    constructor
    · rintro rfl
      exact .inr ⟨hnone, rfl⟩
    · rintro (hsome | ⟨-, rfl⟩)
      · cases hsome
      · rfl
  | some nearest =>
    have hmarked : d.isRepository nearest = true := List.find?_some hfound
    rw [Option.getD_some]
    constructor
    · rintro rfl
      exact .inl rfl
    · rintro (hsome | ⟨hnone, -⟩)
      · exact Option.some.inj hsome
      · rw [hnone nearest (List.mem_of_find?_eq_some hfound)] at hmarked
        cases hmarked

/-- The search for the repository comes across the directory that it ends with. -/
theorem mem_throughFirst_repositoryRoot (d : Disk) (start : Path) :
    d.repositoryRoot start ∈ throughFirst d.isRepository start.ancestors := by
  unfold repositoryRoot
  cases hfound : start.ancestors.find? d.isRepository with
  | some nearest => exact mem_throughFirst_of_find? hfound
  | none =>
    rw [Path.ancestors_eq, throughFirst, Option.getD_none]
    split <;> exact List.mem_cons_self

theorem isRepository_iff {directory : Path} :
    d.isRepository directory = true ↔
      ∃ name ∈ ["lintfmt.toml", "lintfmt.yaml", "lintfmt.yml", ".git"],
        d.pathExists (directory.entry name) = true := by
  rw [isRepository, List.any_eq_true]
  rfl

end Disk

/-! ## Where each value comes from -/

/-- What is in effect has each value from the first source that has one. -/
structure Choices.FilledFrom (c : Choices) (s : Settings) (e : Effective) : Prop where
  output : some e.output = firstPresent [c.output, s.output, some "human"]
  order : some e.order = firstPresent [c.order, s.order, some .fixThenFormat]
  /-- What the caller names is seen from the working directory, what the settings name from the
  repository. -/
  catalog : e.catalog = firstPresent [c.catalog.map Path.ofText,
    s.catalog.map fun name => e.root.join (.ofText name)]
  fallback : e.fallback = s.fallback.elim .empty .ofMap
  extensions : e.extensions = s.extensions

/-- Choices are filled up in the order of precedence. -/
theorem Choices.filledFrom_fill (c : Choices) (s : Settings) (root : Path) :
    c.FilledFrom s (c.fill root s) where
  output := by
    cases houtput : c.output <;> cases hset : s.output <;> simp [fill, houtput, hset, defaultOutput]
  order := by
    cases horder : c.order <;> cases hset : s.order <;> simp [fill, horder, hset, default]
  catalog := by simp [fill]
  fallback := by cases hset : s.fallback <;> simp [fill, hset]
  extensions := rfl

/-- What is filled up in the order of precedence is determined by the choices and the settings. -/
theorem Choices.FilledFrom.eq_fill {c : Choices} {s : Settings} {e : Effective}
    (h : c.FilledFrom s e) : e = c.fill e.root s := by
  have hfill := c.filledFrom_fill s e.root
  have houtput := Option.some.inj (h.output.trans hfill.output.symm)
  have horder := Option.some.inj (h.order.trans hfill.order.symm)
  have hcatalog : e.catalog = (c.fill e.root s).catalog := h.catalog.trans hfill.catalog.symm
  have hfallback := h.fallback.trans hfill.fallback.symm
  have hextensions := h.extensions.trans hfill.extensions.symm
  cases e
  simp_all [fill]

/-- What is in effect for a caller's choices. -/
structure Disk.InEffect (d : Disk) (c : Choices) (e : Effective) : Prop where
  root : d.IsRoot (Path.ofText (c.start.getD ".")) e.root
  /-- Settings that cannot be read count as none. -/
  values : (∃ s, d.HasSettings e.root s ∧ c.FilledFrom s e) ∨
    (∀ s, ¬ d.HasSettings e.root s) ∧ c.FilledFrom {} e

namespace Disk

variable {d : Disk} {c : Choices} {e : Effective}

theorem effective_of_root {root : Path}
    (hroot : d.repositoryRoot (.ofText (c.start.getD ".")) = root) :
    d.effective c = c.fill root ((d.settings? root).getD {}) := by
  rw [← hroot]
  rfl

/-- What is in effect on a disk fits the description. -/
theorem inEffect_effective (d : Disk) (c : Choices) : d.InEffect c (d.effective c) := by
  obtain ⟨root, hroot⟩ : ∃ root, d.repositoryRoot (.ofText (c.start.getD ".")) = root := ⟨_, rfl⟩
  have hfill := effective_of_root hroot
  cases hsettings : d.settings? root with
  | some s =>
    rw [hsettings, Option.getD_some] at hfill
    rw [hfill]
    exact ⟨repositoryRoot_eq_iff.1 hroot,
      .inl ⟨s, settings?_eq_some_iff.1 hsettings, c.filledFrom_fill s root⟩⟩
  | none =>
    rw [hsettings, Option.getD_none] at hfill
    rw [hfill]
    refine ⟨repositoryRoot_eq_iff.1 hroot, .inr ⟨fun s hs => ?_, c.filledFrom_fill {} root⟩⟩
    have hsome := settings?_eq_some_iff.2 hs
    exact Option.some_ne_none s (hsome.symm.trans hsettings)

theorem InEffect.eq_effective (h : d.InEffect c e) : e = d.effective c := by
  rw [effective_of_root (repositoryRoot_eq_iff.2 h.root)]
  rcases h.values with ⟨s, hs, hfilled⟩ | ⟨hnone, hfilled⟩
  · rw [settings?_eq_some_iff.2 hs, Option.getD_some]
    exact hfilled.eq_fill
  · have hsettings : d.settings? e.root = none := by
      cases hfound : d.settings? e.root with
      | none => rfl
      | some s => exact absurd (settings?_eq_some_iff.1 hfound) (hnone s)
    rw [hsettings, Option.getD_none]
    exact hfilled.eq_fill

/-- What is in effect on a disk is what is described, and nothing else is. -/
theorem effective_eq_iff : d.effective c = e ↔ d.InEffect c e :=
  ⟨fun h => h ▸ d.inEffect_effective c, fun h => h.eq_effective.symm⟩

/-! ## What has no say -/

/-- A file that cannot be read or is malformed gives no settings, and none of the others is asked.
-/
theorem not_hasSettings {root file : Path} {s : Settings}
    (hfile : IsFirst d.pathExists (settingsFileNames.map root.entry) file)
    (h : (∀ text, d.readText file ≠ .ok text) ∨
      ∃ text, d.readText file = .ok text ∧ Settings.MalformedIn file text) :
    ¬ d.HasSettings root s := by
  rintro ⟨file', text, hfile', htext, hs⟩
  obtain rfl : file = file' := by
    rw [isFirst_iff] at hfile hfile'
    exact Option.some.inj (hfile.symm.trans hfile')
  rcases h with hunread | ⟨text', htext', hmalformed⟩
  · exact hunread text htext
  · cases htext.symm.trans htext'
    exact hmalformed.not_writtenIn hs

/-- Whether a directory is a repository depends on which of the marks exist in it. -/
theorem isRepository_congr {d' : Disk} {directory : Path}
    (h : ∀ name ∈ repositoryMarks,
      d.pathExists (directory.entry name) = d'.pathExists (directory.entry name)) :
    d.isRepository directory = d'.isRepository directory := by
  rw [Bool.eq_iff_iff, isRepository, isRepository, List.any_eq_true, List.any_eq_true]
  refine exists_congr fun name => and_congr_right fun hname => ?_
  rw [h name hname]

/-- Two disks with the same marks up to the repository and the same settings there have the same in
effect. -/
theorem effective_congr {d' : Disk}
    (hmarks : ∀ directory ∈ throughFirst d.isRepository (Path.ofText (c.start.getD ".")).ancestors,
      ∀ name ∈ repositoryMarks,
        d.pathExists (directory.entry name) = d'.pathExists (directory.entry name))
    (hsettings : ∀ file,
      IsFirst d.pathExists (settingsFileNames.map (d.effective c).root.entry) file →
        d.readText file = d'.readText file) :
    d.effective c = d'.effective c := by
  obtain ⟨root, hroot⟩ : ∃ root, d.repositoryRoot (.ofText (c.start.getD ".")) = root := ⟨_, rfl⟩
  have hmem := d.mem_throughFirst_repositoryRoot (.ofText (c.start.getD "."))
  rw [hroot] at hmem
  have hroot' : d'.repositoryRoot (.ofText (c.start.getD ".")) = root := by
    rw [← hroot, repositoryRoot, repositoryRoot]
    have hfind := find?_congr_throughFirst fun directory hdirectory =>
      isRepository_congr (hmarks directory hdirectory)
    rw [hfind]
  have hfile : (settingsFileNames.map root.entry).find? d.pathExists =
      (settingsFileNames.map root.entry).find? d'.pathExists := by
    refine List.find?_congr fun file hfile => ?_
    obtain ⟨name, hname, rfl⟩ := List.mem_map.1 hfile
    exact hmarks root hmem name (List.mem_append_left _ hname)
  have hsame : d.settings? root = d'.settings? root := by
    unfold settings?
    rw [← hfile]
    refine Option.bind_congr fun file hfound => ?_
    have hread : d.readText file = d'.readText file := by
      refine hsettings file ?_
      rw [effective_of_root hroot]
      exact isFirst_iff.2 hfound
    unfold settingsIn?
    rw [hread]
  rw [effective_of_root hroot, effective_of_root hroot', hsame]

/-- What is in effect for a caller's choices, whatever they are and wherever marks and settings lie.
The repository is the nearest marked directory from the start upwards, or the start itself. The
first of its settings files that exists says what is set, as a whole: if it cannot be read or has
one malformed field, the caller's choices and the defaults stand alone. Nothing above the repository
and no other settings file has a say. -/
theorem effective_by_precedence (d : Disk) (c : Choices) :
    (∀ p : Path, p.ancestors = p :: p.parent?.elim [] Path.ancestors) ∧
    (∀ directory, d.isRepository directory = true ↔
      ∃ name ∈ ["lintfmt.toml", "lintfmt.yaml", "lintfmt.yml", ".git"],
        d.pathExists (directory.entry name) = true) ∧
    (∀ e, d.effective c = e ↔ d.InEffect c e) ∧
    (∀ root file, IsFirst d.pathExists (settingsFileNames.map root.entry) file →
      ((∀ text, d.readText file ≠ .ok text) ∨
        ∃ text, d.readText file = .ok text ∧ Settings.MalformedIn file text) →
      ∀ s, ¬ d.HasSettings root s) ∧
    ∀ d' : Disk,
      (∀ directory ∈ throughFirst d.isRepository (Path.ofText (c.start.getD ".")).ancestors,
        ∀ name ∈ repositoryMarks,
          d.pathExists (directory.entry name) = d'.pathExists (directory.entry name)) →
      (∀ file, IsFirst d.pathExists (settingsFileNames.map (d.effective c).root.entry) file →
        d.readText file = d'.readText file) →
      d.effective c = d'.effective c :=
  ⟨Path.ancestors_eq, fun _ => isRepository_iff, fun _ => effective_eq_iff,
    fun _ _ hfile h _ => not_hasSettings hfile h, fun _ => effective_congr⟩

/-- A disk with a repository whose first settings file is a directory. Another one stands behind. -/
def unreadRepository (behind : String) : Disk where
  tree := .directory [("a", .directory [("lintfmt.toml", .emptyDirectory),
    ("lintfmt.yaml", .file (some behind)), ("b", .emptyDirectory)])]
  cwd := []

/-- Settings for an output, for an order and for a catalog. -/
def settledText : String := "output: json\norder: format-then-fix\ncatalog: rules.json\n"

/-- A disk with a repository that keeps settings, and malformed ones behind them and above it. -/
def settledRepository : Disk where
  tree := .directory [("lintfmt.toml", .file (some "[")), ("a", .directory
    [("lintfmt.yaml", .file (some settledText)), ("lintfmt.yml", .file (some "output: [")),
      ("b", .emptyDirectory)])]
  cwd := []

/-- The settings of this repository are those that its text names. -/
theorem settledRepository_hasSettings : ∃ s, settledRepository.HasSettings ⟨"", ["a"]⟩ s ∧
    s.output = some "json" ∧ s.order = some .formatThenFix ∧ s.catalog = some "rules.json" ∧
    s.fallback = none ∧ s.extensions = none := by
  have hset : (Settings.ofYaml? settledText).any (fun s => s.output = some "json" ∧
      s.order = some .formatThenFix ∧ s.catalog = some "rules.json" ∧ s.fallback.isNone ∧
      s.extensions = none) = true := by decide +kernel
  cases hs : Settings.ofYaml? settledText with
  | none => rw [hs] at hset; cases hset
  | some s =>
    rw [hs, Option.any_some, decide_eq_true_eq, Option.isNone_iff_eq_none] at hset
    have hread : settledRepository.readText ⟨"", ["a", "lintfmt.yaml"]⟩ = .ok settledText := by rfl
    exact ⟨s, ⟨⟨"", ["a", "lintfmt.yaml"]⟩, settledText, isFirst_iff.2 (by decide +kernel), hread,
      Settings.writtenIn_iff.2 hs⟩, hset⟩

/-- The settings file that stands behind has no say, although the one before it cannot be read.
Settings that can be read have one where the caller leaves something open, and name the catalog as
seen from the repository. -/
theorem effective_unreadRepository :
    let c : Choices := { start := some "/a/b", catalog := some "rules.json" }
    let d := unreadRepository "output: json\n"
    d.effective c = c.fill ⟨"", ["a"]⟩ {} ∧ (d.effective c).output = "human" ∧
      (d.effective c).catalog = some ⟨"rules.json", []⟩ ∧
      d.effective c = (unreadRepository "output: [").effective c ∧
      settledRepository.effective { start := some "/a/b", order := some .fixThenFormat } =
        { root := ⟨"", ["a"]⟩
          output := "json"
          order := .fixThenFormat
          catalog := some ⟨"", ["a", "rules.json"]⟩
          fallback := .empty
          extensions := none } := by
  intro c d
  obtain ⟨-, -, heffective, hspoilt, hcongr⟩ := effective_by_precedence d c
  have hstart : Path.ofText (c.start.getD ".") = ⟨"", ["a", "b"]⟩ := by decide +kernel
  have hroot : IsFirst d.isRepository (Path.ofText (c.start.getD ".")).ancestors ⟨"", ["a"]⟩ := by
    rw [hstart, isFirst_iff]
    decide +kernel
  have hfile : IsFirst d.pathExists (settingsFileNames.map (Path.mk "" ["a"]).entry)
      ⟨"", ["a", "lintfmt.toml"]⟩ := isFirst_iff.2 (by decide +kernel)
  have hread : d.readText ⟨"", ["a", "lintfmt.toml"]⟩ = .error .isDirectory := by rfl
  have hunread : ∀ text, d.readText ⟨"", ["a", "lintfmt.toml"]⟩ ≠ .ok text := by
    intro text htext
    cases hread.symm.trans htext
  have hfill : d.effective c = c.fill ⟨"", ["a"]⟩ {} :=
    (heffective _).2 ⟨.inl hroot, .inr ⟨hspoilt _ _ hfile (.inl hunread), c.filledFrom_fill {} _⟩⟩
  refine ⟨hfill, by rw [hfill]; rfl, by rw [hfill]; decide +kernel, hcongr _ ?_ ?_, ?_⟩
  · rw [hstart]
    decide +kernel
  · intro file hfirst
    rw [hfill] at hfirst
    rw [isFirst_iff] at hfile hfirst
    cases hfile.symm.trans hfirst
    rfl
  · obtain ⟨s, hs, houtput, horder, hcatalog, hfallback, hextensions⟩ :=
      settledRepository_hasSettings
    refine ((effective_by_precedence settledRepository _).2.2.1 _).2
      ⟨.inl (isFirst_iff.2 (by decide +kernel)), .inl ⟨s, hs, ?_⟩⟩
    constructor
    · rw [houtput]
      rfl
    · rfl
    · rw [hcatalog]
      decide +kernel
    · rw [hfallback]
      rfl
    · exact hextensions.symm

end Disk

end Concord
