import Concord.Inspection.Rendering
import Concord.Proofs.Inspection.Targets

/-!
# What the reports are

Targets are sorted by their components and reports by the names under which the targets are shown.
Neither step loses, repeats or mixes up anything: the targets are what the texts name, each once
(`Disk.TargetsOf`), and the reports are what the plans for the targets say, each once
(`FormatRequest.ReportsOn`).
-/

namespace Concord

namespace FormatRequest

variable {template : FormatRequest} {root : Path} {resolver : Resolver} {catalog : Catalog}
  {targets others : List Path}

/-- Sorting neither loses nor repeats a report. -/
theorem optionsReports_perm (template : FormatRequest) (root : Path) (resolver : Resolver)
    (catalog : Catalog) (targets : List Path) :
    (template.optionsReports root resolver catalog targets).Perm
      (targets.map (template.optionsReport root resolver catalog)) :=
  List.mergeSort_perm _ _

theorem optionsReports_singleton (template : FormatRequest) (root : Path) (resolver : Resolver)
    (catalog : Catalog) (file : Path) : template.optionsReports root resolver catalog [file] =
      [template.optionsReport root resolver catalog file] := by
  rw [optionsReports, List.map_singleton, List.mergeSort_singleton]

/-- Reports stand in the order of the names that are shown. -/
theorem optionsReports_sorted (template : FormatRequest) (root : Path) (resolver : Resolver)
    (catalog : Catalog) (targets : List Path) :
    (template.optionsReports root resolver catalog targets).Pairwise fun a b =>
      a.file ≤ b.file := by
  have htrans : ∀ a b c : OptionsReport, (!decide (b.file < a.file)) = true →
      (!decide (c.file < b.file)) = true → (!decide (c.file < a.file)) = true := by
    intro a b c hab hbc
    rw [Bool.not_eq_true', decide_eq_false_iff_not, String.not_lt] at hab hbc ⊢
    exact String.le_trans hab hbc
  have htotal : ∀ a b : OptionsReport, ((!decide (b.file < a.file)) ||
      (!decide (a.file < b.file))) = true := by
    intro a b
    by_cases hba : b.file < a.file
    · simp [String.lt_asymm hba]
    · simp [hba]
  refine (List.pairwise_mergeSort htrans htotal _).imp fun {a b} hab => ?_
  rwa [Bool.not_eq_true', decide_eq_false_iff_not, String.not_lt] at hab

/-- Where all targets are shown under different names, their order makes no difference. -/
theorem optionsReports_congr (hnames : (targets.map (·.shownFrom root)).Nodup)
    (h : targets.Perm others) : template.optionsReports root resolver catalog targets =
      template.optionsReports root resolver catalog others := by
  have hperm : (template.optionsReports root resolver catalog targets).Perm
      (template.optionsReports root resolver catalog others) :=
    (optionsReports_perm ..).trans ((h.map _).trans (optionsReports_perm ..).symm)
  refine hperm.eq_of_pairwise ?_ (optionsReports_sorted ..) (optionsReports_sorted ..)
  intro a b ha hb hab hba
  obtain ⟨p, hp, rfl⟩ := List.mem_map.1 ((optionsReports_perm ..).subset ha)
  obtain ⟨q, hq, rfl⟩ := List.mem_map.1 ((optionsReports_perm ..).subset hb)
  have hshown : p.shownFrom root = q.shownFrom root := String.le_antisymm hab hba
  rw [List.inj_on_of_nodup_map hnames hp (h.symm.subset hq) hshown]

/-- The reports that are counted are those on targets whose plan has a fixing pass. -/
theorem countFixStages_optionsReports :
    countFixStages (template.optionsReports root resolver catalog targets) =
      targets.countP fun p =>
        (({ template with file := some p } : FormatRequest).plan resolver catalog).fix.isSome := by
  rw [countFixStages, (optionsReports_perm ..).countP_eq, List.countP_map]
  rfl

/-- That reports say what the plans for the targets say, one for each target, the plan being that of
the shared request with the target for its file. They are sorted by the names that are shown, and
their document counts the targets and those with a fixing pass. -/
structure ReportsOn (template : FormatRequest) (root : Path) (resolver : Resolver)
    (catalog : Catalog) (targets : List Path) (reports : List OptionsReport) : Prop where
  planned : reports.Perm (targets.map fun file =>
    let plan := ({ template with file := some file } : FormatRequest).plan resolver catalog
    { file := file.shownFrom root
      options := plan.formatting
      fixStage := plan.fix.isSome
      order := plan.order })
  sorted : reports.Pairwise fun a b => a.file ≤ b.file
  counted : (optionsDocument reports).field? "summary" = some (.object
    [("files", .ofNat targets.length),
      ("fixStage", .ofNat (targets.countP fun file =>
        (({ template with file := some file } : FormatRequest).plan resolver catalog).fix.isSome))])

/-- The reports on targets are all that is said of them. -/
theorem reportsOn_optionsReports (template : FormatRequest) (root : Path) (resolver : Resolver)
    (catalog : Catalog) (targets : List Path) : template.ReportsOn root resolver catalog targets
      (template.optionsReports root resolver catalog targets) where
  planned := optionsReports_perm ..
  sorted := optionsReports_sorted ..
  counted := by
    have hlength : (template.optionsReports root resolver catalog targets).length =
        targets.length := by rw [(optionsReports_perm ..).length_eq, List.length_map]
    rw [← countFixStages_optionsReports, ← hlength]
    rfl

end FormatRequest

namespace Disk

/-- That targets are what texts name in a repository, up to the spelling of paths, in the order of
paths and each once. -/
structure TargetsOf (d : Disk) (root : Path) (texts : List String) (targets : List Path) : Prop where
  increasing : targets.Pairwise Path.Before
  distinct : (targets.map Path.components).Nodup
  named : ∀ p : Path, (∃ q ∈ targets, q.components = p.components) ↔
    ∃ text ∈ texts, ∃ q, d.Names root text q ∧ q.components = p.components

/-- The targets are what the texts name, sorted and without repetition. -/
theorem targetsOf_targets (d : Disk) (root : Path) (texts : List String) :
    d.TargetsOf root texts (d.targets root texts) where
  increasing := pairwise_targets d root texts
  distinct := (pairwise_targets d root texts).map _ fun _ _ h => (Path.before_iff.1 h).2
  named _ := exists_mem_targets_iff

/-- The targets are what the texts name, and a malformed pattern takes nothing from the others. The
reports are what the plans for the targets say, whichever targets there are; where they are shown
under different names, the order of the targets makes no difference. -/
theorem inspection_complete (d : Disk) (root : Path) :
    (∀ texts, d.TargetsOf root texts (d.targets root texts)) ∧
    (∀ bad : String, (∃ c ∈ bad.toList, c = '*' ∨ c = '?' ∨ c = '[') →
      d.expand? (root.join (.ofText bad)) = none →
      ∀ before after, d.targets root (before ++ bad :: after) = d.targets root (before ++ after)) ∧
    ∀ (template : FormatRequest) (resolver : Resolver) (catalog : Catalog) (targets : List Path),
      let reports := template.optionsReports root resolver catalog
      template.ReportsOn root resolver catalog targets (reports targets) ∧
      ((targets.map (·.shownFrom root)).Nodup →
        ∀ others, targets.Perm others → reports others = reports targets) := by
  refine ⟨targetsOf_targets d root, fun bad hwild hbad before after => ?_,
    fun template resolver catalog targets => ⟨template.reportsOn_optionsReports .., ?_⟩⟩
  · rw [targets, targets, List.flatMap_append, List.flatMap_cons,
      named_of_malformed hwild hbad, List.nil_append, ← List.flatMap_append]
  · exact fun hnames others h => (FormatRequest.optionsReports_congr hnames h).symm

/-- A repository with two files and the texts that name them, with an unfinished set between. Each
report tells the formatter about its own file. -/
theorem inspection_of_two_files :
    let d : Disk := ⟨.directory [("r", .directory [("a.js", .file none), ("b.js", .file none)])], []⟩
    let root : Path := .ofText "/r"
    let a : Path := .ofText "/r/a.js"
    let b : Path := .ofText "/r/b.js"
    let told := fun report : OptionsReport =>
      (report.file, (report.options.extra.find? "filepath").bind Json.string?)
    d.targets root ["*.js", "[", "b.js"] = d.targets root ["*.js", "b.js"] ∧
      (∀ (template : FormatRequest) (resolver : Resolver) (catalog : Catalog),
        template.optionsReports root resolver catalog [b, a] =
          template.optionsReports root resolver catalog [a, b]) ∧
      (FormatRequest.optionsReports {} root .nothing .fallback [b, a]).map told =
        [("a.js", some "/r/a.js"), ("b.js", some "/r/b.js")] := by
  intro d root a b told
  obtain ⟨-, hbad, hreports⟩ := inspection_complete d root
  have hsame : ∀ (template : FormatRequest) (resolver : Resolver) (catalog : Catalog),
      template.optionsReports root resolver catalog [b, a] =
        template.optionsReports root resolver catalog [a, b] := by
    intro template resolver catalog
    exact (hreports template resolver catalog [a, b]).2 (by decide +kernel) [b, a] (.swap b a [])
  refine ⟨hbad "[" (by simp) (by decide +kernel) ["*.js"] ["b.js"], hsame, ?_⟩
  -- In this order the reports are sorted already.
  rw [hsame, FormatRequest.optionsReports, List.mergeSort_of_pairwise (by decide +kernel)]
  decide +kernel

end Disk

end Concord
