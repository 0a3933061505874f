import Concord.Plan.Basic
import Concord.Proofs.Map.Sorted

/-!
# The configuration of a fixing pass

`FixPass` describes what the linter is handed for a fixing pass, given the configuration in force,
the catalog and the file: which rules are silenced and which stay, and where everything else comes
from. A plan has such a pass exactly if the linter takes the file, and then it has the one that
`FixPass` describes (`FormatRequest.fix_plan`).
-/

namespace Concord

/-! ## Rules that cannot fix anything -/

namespace Catalog

/-- A rule is known to be unfixable if the catalog lists it without a way to fix. A rule that is not
listed is not. -/
theorem isKnownUnfixable_iff {catalog : Catalog} {name : String} :
    catalog.isKnownUnfixable name = true ↔
      ∃ info, catalog.find? name = some info ∧ info.fix = none := by
  unfold isKnownUnfixable
  cases catalog.find? name with
  | none => simp
  | some info => simp [RuleMeta.isFixable]

end Catalog

/-- The rules that are turned off are the configured ones that the catalog lists without a way to
repair. -/
theorem LintConfig.mem_unfixableRules {lint : LintConfig} {catalog : Catalog} {name : String} :
    name ∈ lint.unfixableRules catalog ↔
      name ∈ lint.rules.keys ∧ ∃ info, catalog.find? name = some info ∧ info.fix = none := by
  rw [unfixableRules, List.mem_filter, Catalog.isKnownUnfixable_iff]

theorem LintConfig.sorted_unfixableRules (lint : LintConfig) (catalog : Catalog) :
    (lint.unfixableRules catalog).Pairwise (· < ·) :=
  lint.rules.sorted_keys.filter _

namespace FixConfig

/-- Each rule stays as it is unless the catalog says that it cannot be repaired. -/
theorem find?_rules_ofLint (lint : LintConfig) (catalog : Catalog) (name : String) :
    (ofLint lint catalog).rules.find? name =
      (lint.rules.find? name).map fun entry =>
        if catalog.isKnownUnfixable name then .off else entry :=
  SortedMap.find?_mapEntries _ lint.rules name

/-- Rules that are silenced stay silenced: the pass derived from its own rules is the same. -/
theorem ofLint_rules_ofLint (lint : LintConfig) (catalog : Catalog) :
    ofLint { lint with rules := (ofLint lint catalog).rules } catalog = ofLint lint catalog := by
  have hrules : (ofLint { lint with rules := (ofLint lint catalog).rules } catalog).rules =
      (ofLint lint catalog).rules := by
    refine SortedMap.ext_find? fun name => ?_
    rw [find?_rules_ofLint, find?_rules_ofLint, Option.map_map]
    congr 1
    funext entry
    rw [Function.comp_apply]
    split <;> rfl
  -- Nothing but the rules depends on the rules.
  have hrest : ∀ rules : RuleSet, ofLint { lint with rules } catalog =
      { ofLint lint catalog with rules := (ofLint { lint with rules } catalog).rules } :=
    fun _ => rfl
  rw [hrest, hrules]

end FixConfig

/-! ## What a pass is -/

/-- The parsers for files that need one of their own, by extension. -/
def parserTable : List (String × String) :=
  [("ts", "@typescript-eslint/parser"), ("tsx", "@typescript-eslint/parser"),
    ("vue", "vue-eslint-parser")]

/-- What the linter is handed for a fixing pass over a file, or over a text without one, where
`lint` is in force. -/
structure FixPass (lint : LintConfig) (catalog : Catalog) (file : Option Path)
    (config : FixConfig) : Prop where
  /-- The linter looks for no other configuration. -/
  alone : config.discoverConfig = false
  /-- The linter repairs what it finds. -/
  repairs : config.fix = true
  /-- No rule is added or left out. -/
  names : config.rules.keys = lint.rules.keys
  /-- A rule that the catalog lists without a way to fix is off, its options dropped. -/
  silenced : ∀ name ∈ lint.rules.keys, (∃ info, catalog.find? name = some info ∧ info.fix = none) →
    config.rules.find? name = some ⟨.off, []⟩
  /-- Every other rule stays as it is, whether the catalog lists it or not. -/
  kept : ∀ name, ¬ (∃ info, catalog.find? name = some info ∧ info.fix = none) →
    config.rules.find? name = lint.rules.find? name
  -- Everything else that linter configuration has is handed on.
  settings : config.settings = lint.settings
  env : config.env = lint.env
  plugins : config.plugins = lint.plugins
  parserOptions : config.parserOptions = lint.parserOptions
  extensions : config.extensions = lint.effectiveExtensions
  /-- Every global is declared once, in the order of the names. -/
  globals : ∃ declared : List (String × GlobalAccess), declared.Pairwise (·.1 < ·.1) ∧
    (∀ name access, (name, access) ∈ declared ↔ lint.globals.find? name = some access) ∧
    config.globals = declared.map fun entry => entry.1 ++ ":" ++ entry.2.name
  /-- The parser is the one in force, else the one for the file's extension, if it needs one. -/
  parser : config.parser = lint.parser.or ((file.bind Path.extension?).bind (parserTable.lookup ·))

namespace FixPass

variable {lint : LintConfig} {catalog : Catalog} {file : Option Path} {a b : FixConfig}

/-- The rules of a fixing pass are determined by what is said about each of them. -/
theorem rules_eq (ha : FixPass lint catalog file a) (hb : FixPass lint catalog file b) :
    a.rules = b.rules := by
  refine SortedMap.ext_find? fun name => ?_
  by_cases hunfixable : ∃ info, catalog.find? name = some info ∧ info.fix = none
  · by_cases hname : name ∈ lint.rules.keys
    · rw [ha.silenced name hname hunfixable, hb.silenced name hname hunfixable]
    · -- Of a name without a rule `silenced` says nothing, but `names` does.
      have hgone : ∀ {c : FixConfig}, FixPass lint catalog file c → c.rules.find? name = none :=
        fun hc => SortedMap.find?_eq_none_iff.2 (hc.names ▸ hname)
      rw [hgone ha, hgone hb]
  · rw [ha.kept name hunfixable, hb.kept name hunfixable]

theorem globals_eq (ha : FixPass lint catalog file a) : a.globals = lint.declarations := by
  obtain ⟨declared, hsorted, hdeclared, hglobals⟩ := ha.globals
  -- A sorted list is known by its members.
  have hmap : (⟨declared, hsorted⟩ : SortedMap GlobalAccess) = lint.globals := by
    refine SortedMap.ext_find? fun name => Option.ext fun access => ?_
    rw [← SortedMap.mem_entries_iff, hdeclared]
  have hentries : declared = lint.globals.entries := congrArg SortedMap.entries hmap
  rw [hglobals, hentries]
  rfl

/-- There is one configuration that fits what is said about a fixing pass. -/
theorem unique (ha : FixPass lint catalog file a) (hb : FixPass lint catalog file b) : a = b := by
  have halone : a.discoverConfig = b.discoverConfig := by rw [ha.alone, hb.alone]
  have hrepairs : a.fix = b.fix := by rw [ha.repairs, hb.repairs]
  have hrules : a.rules = b.rules := ha.rules_eq hb
  have hsettings : a.settings = b.settings := by rw [ha.settings, hb.settings]
  have hglobals : a.globals = b.globals := by rw [ha.globals_eq, hb.globals_eq]
  have henv : a.env = b.env := by rw [ha.env, hb.env]
  have hplugins : a.plugins = b.plugins := by rw [ha.plugins, hb.plugins]
  have hparser : a.parser = b.parser := by rw [ha.parser, hb.parser]
  have hoptions : a.parserOptions = b.parserOptions := by rw [ha.parserOptions, hb.parserOptions]
  have hextensions : a.extensions = b.extensions := by rw [ha.extensions, hb.extensions]
  obtain ⟨_, _, _, _, _, _, _, _, _, _⟩ := a
  obtain ⟨_, _, _, _, _, _, _, _, _, _⟩ := b
  simp only at halone hrepairs hrules hsettings hglobals henv hplugins hparser hoptions hextensions
  subst halone hrepairs hrules hsettings hglobals henv hplugins hparser hoptions hextensions
  rfl

end FixPass

namespace FixConfig

/-- The parser of a file is that of its extension in the table. -/
theorem parserFor?_eq (file : Path) :
    parserFor? file = file.extension?.bind (parserTable.lookup ·) := by
  unfold parserFor?
  split
  · next h => rw [h]; rfl
  · next h => rw [h]; rfl
  · next h => rw [h]; rfl
  · next hts htsx hvue =>
    cases h : file.extension? with
    | none => rfl
    | some extension =>
      -- What is none of the three extensions is not in the table.
      have hmissing : extension ∉ parserTable.map Prod.fst := by
        rintro hmem
        simp only [parserTable, List.map_cons, List.map_nil, List.mem_cons, List.not_mem_nil,
          or_false] at hmem
        rcases hmem with rfl | rfl | rfl
        · exact hts h
        · exact htsx h
        · exact hvue h
      exact (lookup_eq_none_iff_notMem.2 hmissing).symm

/-- The configuration that is put together for a file is that of its fixing pass. -/
theorem fixPass_ofLint (lint : LintConfig) (catalog : Catalog) (file : Option Path) :
    FixPass lint catalog file
      { ofLint lint catalog with parser := lint.parser.or (file.bind parserFor?) } where
  alone := rfl
  repairs := rfl
  names := SortedMap.keys_mapEntries _ lint.rules
  silenced name hname hunfixable := by
    obtain ⟨entry, hentry⟩ := SortedMap.mem_keys_iff.1 hname
    have hfound := find?_rules_ofLint lint catalog name
    rw [hentry, Option.map_some, if_pos (Catalog.isKnownUnfixable_iff.2 hunfixable)] at hfound
    exact hfound
  kept name hfixable := by
    have hfound := find?_rules_ofLint lint catalog name
    simp only [if_neg fun h => hfixable (Catalog.isKnownUnfixable_iff.1 h)] at hfound
    rw [Option.map_id'] at hfound
    exact hfound
  settings := rfl
  env := rfl
  plugins := rfl
  parserOptions := rfl
  extensions := rfl
  globals :=
    ⟨lint.globals.entries, lint.globals.sorted, fun _ _ => SortedMap.mem_entries_iff, rfl⟩
  parser := by
    cases file with
    | none => rfl
    | some path => exact congrArg lint.parser.or (parserFor?_eq path)

/-- The linter takes a file exactly if the file's extension with its dot, or the empty text in place
of one, is among those in force. -/
theorem handles_ofLint (lint : LintConfig) (catalog : Catalog) (path : Path) :
    (ofLint lint catalog).handles path = true ↔
      path.extension?.elim "" ("." ++ ·) ∈ lint.effectiveExtensions := by
  have hdotted : dottedExtension path = path.extension?.elim "" ("." ++ ·) := by
    unfold dottedExtension
    cases path.extension? <;> rfl
  rw [handles, hdotted, List.contains_iff_mem]
  rfl

/-- There is no fixing pass exactly for a file whose extension, with its dot, is not among those in
effect. -/
theorem forFile?_eq_none_iff {lint : LintConfig} {catalog : Catalog} {file : Option Path} :
    (ofLint lint catalog).forFile? file = none ↔ ∃ path, file = some path ∧
      path.extension?.elim "" ("." ++ ·) ∉ lint.effectiveExtensions := by
  cases file with
  | none => simp [forFile?]
  | some path =>
    have htaken := handles_ofLint lint catalog path
    cases h : (ofLint lint catalog).handles path with
    | true =>
      have hin := htaken.1 h
      simp [forFile?, h, hin]
    | false =>
      have hout : path.extension?.elim "" ("." ++ ·) ∉ lint.effectiveExtensions :=
        fun hin => Bool.false_ne_true (h.symm.trans (htaken.2 hin))
      simpa [forFile?, h] using hout

theorem fixPass_of_forFile? {lint : LintConfig} {catalog : Catalog} {file : Option Path}
    {config : FixConfig} (h : (ofLint lint catalog).forFile? file = some config) :
    FixPass lint catalog file config := by
  have hpass := fixPass_ofLint lint catalog file
  cases file with
  | none =>
    obtain rfl : ofLint lint catalog = config := Option.some.inj h
    rw [Option.bind_none, Option.or_none] at hpass
    exact hpass
  | some path =>
    rw [forFile?] at h
    split at h
    · obtain rfl := Option.some.inj h
      exact hpass
    · cases h

end FixConfig

/-! ## The pass of a plan -/

namespace FormatRequest

/-- The fixing pass of a plan. There is none exactly if a file is given whose extension is not among
those in force; otherwise it is the one that `FixPass` describes. The silenced rules are listed in
the order of their names, and deriving the pass once more from its own rules changes nothing. -/
theorem fix_plan (request : FormatRequest) (resolver : Resolver) (catalog : Catalog) :
    let lint := request.lintInForce resolver
    let fix := (request.plan resolver catalog).fix
    (fix = none ↔ ∃ path, request.file = some path ∧
      path.extension?.elim "" ("." ++ ·) ∉ lint.effectiveExtensions) ∧
    (∀ config, fix = some config ↔
      (∀ path, request.file = some path →
        path.extension?.elim "" ("." ++ ·) ∈ lint.effectiveExtensions) ∧
      FixPass lint catalog request.file config) ∧
    (lint.unfixableRules catalog).Pairwise (· < ·) ∧
    (∀ name, name ∈ lint.unfixableRules catalog ↔
      name ∈ lint.rules.keys ∧ ∃ info, catalog.find? name = some info ∧ info.fix = none) ∧
    ∀ config, fix = some config →
      (FixConfig.ofLint { lint with rules := config.rules } catalog).rules = config.rules ∧
      (FixConfig.ofLint { lint with rules := config.rules } catalog).forFile? request.file =
        some config := by
  intro lint fix
  have hpass : ∀ config, fix = some config → FixPass lint catalog request.file config :=
    fun config hconfig => FixConfig.fixPass_of_forFile? hconfig
  have hnone : fix = none ↔ ∃ path, request.file = some path ∧
      path.extension?.elim "" ("." ++ ·) ∉ lint.effectiveExtensions :=
    FixConfig.forFile?_eq_none_iff
  refine ⟨hnone, ?_, lint.sorted_unfixableRules catalog,
    fun name => LintConfig.mem_unfixableRules, ?_⟩
  · intro config
    constructor
    · intro hconfig
      refine ⟨fun path hpath => ?_, hpass config hconfig⟩
      by_contra hout
      have hgone := hnone.2 ⟨path, hpath, hout⟩
      rw [hconfig] at hgone
      cases hgone
    · rintro ⟨htaken, hconfig⟩
      cases h : fix with
      | none =>
        obtain ⟨path, hpath, hout⟩ := hnone.1 h
        exact absurd (htaken path hpath) hout
      | some other => rw [(hpass other h).unique hconfig]
  · intro config hconfig
    have hsame := (hpass config hconfig).rules_eq
      (FixConfig.fixPass_ofLint lint catalog request.file)
    have hrules : config.rules = (FixConfig.ofLint lint catalog).rules := hsame
    rw [hrules, FixConfig.ofLint_rules_ofLint]
    exact ⟨rfl, hconfig⟩

/-- A request for a file in a language with a parser of its own, under a rule with an option that
the fallback catalog knows to be unfixable. -/
def withUnfixableRule : FormatRequest where
  file := some ⟨"a.ts", []⟩
  lintConfig :=
    { rules := (SortedMap.empty.insert "global-require" ⟨.error, [.bool true]⟩).insert RuleName.semi
        ⟨.error, [.string "never"]⟩ }

/-- The unfixable rule is silenced and the other one kept, and doing so again changes nothing. -/
theorem fix_withUnfixableRule :
    ∃ config, (withUnfixableRule.plan .nothing .fallback).fix = some config ∧
      config.rules.find? "global-require" = some ⟨.off, []⟩ ∧
      config.rules.find? RuleName.semi = some ⟨.error, [.string "never"]⟩ ∧
      config.parser = some "@typescript-eslint/parser" ∧
      (FixConfig.ofLint { withUnfixableRule.lintInForce .nothing with rules := config.rules }
        .fallback).rules = config.rules := by
  obtain ⟨-, hpass, -, -, hagain⟩ := fix_plan withUnfixableRule .nothing .fallback
  have hsome : ∃ config, (withUnfixableRule.plan .nothing .fallback).fix = some config := ⟨_, rfl⟩
  obtain ⟨config, hconfig⟩ := hsome
  obtain ⟨-, hpass⟩ := (hpass config).1 hconfig
  refine ⟨config, hconfig, ?_, ?_, ?_, (hagain config hconfig).1⟩
  · exact hpass.silenced "global-require" (by decide) ⟨{}, by rfl, rfl⟩
  · refine (hpass.kept RuleName.semi ?_).trans (by rfl)
    rintro ⟨info, hinfo, -⟩
    cases hinfo
  · rw [hpass.parser]
    rfl

end FormatRequest

end Concord
