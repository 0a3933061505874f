import Concord.Proofs.Inspection.Reports
import Concord.Proofs.Path.Relative

/-!
# Names that tell targets apart

Reports are sorted by the names under which their files are shown. For files that are given from the
top down, such a name says which file it is (`Path.ShownAs`), so that no two reports on different
files have the same place in the order.
-/

namespace Concord

/-! ## What a name says -/

namespace Path

/-- That a path is shown as `shown` to someone who looks from `root`. Following the name from there
leads to the path. Only the root itself goes by its own text; the name of any other path goes up once
for each directory of the root that is not around the path, and then down to what is left of it. -/
structure ShownAs (root p : Path) (shown : String) : Prop where
  resolved : (root.join (.ofText shown)).resolved.components = p.components
  own : p.components = root.components → shown = p.text
  relative : p.components ≠ root.components → ∃ common below above,
    Fork p.names root.names common below above ∧
      shown = "/".intercalate (List.replicate above.length ".." ++ below)

variable {root p q : Path}

/-- The name that is shown satisfies all that is said of shown names. -/
theorem shownAs_shownFrom (hp : p.Direct) (hroot : root.Direct) :
    root.ShownAs p (p.shownFrom root) where
  resolved := components_resolved_shownFrom hp hroot
  own := shownFrom_of_components_eq
  relative hne := by
    obtain ⟨common, below, above, h⟩ := hp.exists_fork_names hroot hne
    exact ⟨common, below, above, h, shownFrom_of_fork hp hroot h⟩

/-- Two paths are shown under one name only if they are spellings of one path, and the root in two
spellings is not. -/
theorem shownFrom_eq_iff (hp : p.Direct) (hq : q.Direct) (hroot : root.Direct) :
    p.shownFrom root = q.shownFrom root ↔
      p.components = q.components ∧ (p.components = root.components → p.text = q.text) := by
  constructor
  · intro h
    have hcomponents := components_eq_of_shownFrom_eq hp hq hroot h
    refine ⟨hcomponents, fun hown => ?_⟩
    rw [← shownFrom_of_components_eq hown, h, shownFrom_of_components_eq (hcomponents ▸ hown)]
  · rintro ⟨hcomponents, htext⟩
    by_cases hown : p.components = root.components
    · rw [shownFrom_of_components_eq hown, shownFrom_of_components_eq (hcomponents ▸ hown),
        htext hown]
    · obtain ⟨common, below, above, h⟩ := hp.exists_fork_names hroot hown
      have hnames : p.names = q.names := by rw [names, names, hcomponents]
      rw [shownFrom_of_fork hp hroot h, shownFrom_of_fork hq hroot (hnames ▸ h)]

end Path

/-! ## Reports under different names -/

namespace FormatRequest

variable {template : FormatRequest} {root : Path} {resolver : Resolver} {catalog : Catalog}
  {targets : List Path} {p : Path} {report : OptionsReport}

/-- Different targets are shown under different names. -/
theorem nodup_shownFrom (hroot : root.Direct) (htargets : ∀ p ∈ targets, p.Direct)
    (hdistinct : (targets.map Path.components).Nodup) :
    (targets.map (·.shownFrom root)).Nodup := by
  have hinjective : ∀ p ∈ targets, ∀ q ∈ targets, p.shownFrom root = q.shownFrom root → p = q := by
    intro p hp q hq h
    have hcomponents :=
      Path.components_eq_of_shownFrom_eq (htargets p hp) (htargets q hq) hroot h
    exact List.inj_on_of_nodup_map hdistinct hp hq hcomponents
  exact (List.Nodup.of_map _ hdistinct).map_on hinjective

section Distinct

variable (hnames : (targets.map (·.shownFrom root)).Nodup)

include hnames

/-- With different names no two reports are level with each other. -/
theorem optionsReports_increasing :
    (template.optionsReports root resolver catalog targets).Pairwise fun a b =>
      a.file < b.file := by
  have hperm := optionsReports_perm template root resolver catalog targets
  have hfiles : ((template.optionsReports root resolver catalog targets).map
      OptionsReport.file).Nodup := by
    rw [(hperm.map OptionsReport.file).nodup_iff, List.map_map]
    exact hnames
  have hsorted := optionsReports_sorted template root resolver catalog targets
  refine (hsorted.and (List.pairwise_map.1 hfiles)).imp fun {a b} hab => ?_
  obtain ⟨hle, hne⟩ := hab
  by_contra hlt
  exact hne (String.le_antisymm hle (String.not_lt.1 hlt))

/-- The name in a report says which target the report is on. -/
theorem file_eq_shownFrom_iff (hp : p ∈ targets)
    (hreport : report ∈ template.optionsReports root resolver catalog targets) :
    report.file = p.shownFrom root ↔ report = template.optionsReport root resolver catalog p := by
  constructor
  · intro h
    obtain ⟨q, hq, rfl⟩ := List.mem_map.1 ((optionsReports_perm ..).subset hreport)
    have hqp : q = p := List.inj_on_of_nodup_map hnames hq hp h
    rw [hqp]
  · rintro rfl
    rfl

end Distinct

end FormatRequest

/-- Seen from an absolute directory, the name under which a path is shown leads to the path again,
where neither of them goes up. Two such paths have different names unless they are spellings of one
path. Reports on different targets are therefore in one strict order, whatever the order of the
targets, and say by the name alone which target they are on. -/
theorem Path.shownFrom_identifies {root : Path} (hroot : root.Direct) :
    (∀ p : Path, p.Direct → root.ShownAs p (p.shownFrom root)) ∧
    (∀ p q : Path, p.Direct → q.Direct → (p.shownFrom root = q.shownFrom root ↔
      p.components = q.components ∧ (p.components = root.components → p.text = q.text))) ∧
    ∀ targets : List Path, (∀ p ∈ targets, p.Direct) → (targets.map Path.components).Nodup →
      (targets.map (·.shownFrom root)).Nodup ∧
      ∀ (template : FormatRequest) (resolver : Resolver) (catalog : Catalog),
        let reports := template.optionsReports root resolver catalog
        (reports targets).Pairwise (fun a b => a.file < b.file) ∧
        (∀ others, targets.Perm others → reports others = reports targets) ∧
        ∀ p ∈ targets, ∀ report ∈ reports targets, report.file = p.shownFrom root ↔
          report = template.optionsReport root resolver catalog p := by
  refine ⟨fun p hp => shownAs_shownFrom hp hroot, fun p q hp hq => shownFrom_eq_iff hp hq hroot, ?_⟩
  intro targets htargets hdistinct
  have hnames := FormatRequest.nodup_shownFrom hroot htargets hdistinct
  refine ⟨hnames, fun template resolver catalog => ⟨?_, ?_, ?_⟩⟩
  · exact FormatRequest.optionsReports_increasing hnames
  · exact fun others hperm => (FormatRequest.optionsReports_congr hnames hperm).symm
  · exact fun p hp report hreport => FormatRequest.file_eq_shownFrom_iff hnames hp hreport

/-- A directory, a file in it, and a file beside it. -/
theorem Path.shownFrom_of_neighbours :
    let root : Path := .ofText "/r/a"
    let inside : Path := .ofText "/r/a/x.js"
    let beside : Path := .ofText "/r//b/x.js"
    let itself : Path := .ofText "/r/a/"
    (root.Direct ∧ inside.Direct ∧ beside.Direct ∧ itself.Direct) ∧
      [inside, beside, itself].map (·.shownFrom root) = ["x.js", "../b/x.js", "/r/a/"] ∧
      (root.join (.ofText "../b/x.js")).resolved.components = beside.components ∧
      inside.shownFrom root ≠ beside.shownFrom root ∧
      ∀ (template : FormatRequest) (resolver : Resolver) (catalog : Catalog),
        template.optionsReports root resolver catalog [itself, beside, inside] =
          template.optionsReports root resolver catalog [inside, beside, itself] := by
  intro root inside beside itself
  have hroot : root.Direct := direct_ofText (by decide +kernel) (by decide +kernel)
  have hinside : inside.Direct := direct_ofText (by decide +kernel) (by decide +kernel)
  have hbeside : beside.Direct := direct_ofText (by decide +kernel) (by decide +kernel)
  have hitself : itself.Direct := direct_ofText (by decide +kernel) (by decide +kernel)
  have hshown : [inside, beside, itself].map (·.shownFrom root) =
      ["x.js", "../b/x.js", "/r/a/"] := by decide +kernel
  obtain ⟨hleads, hapart, hreports⟩ := shownFrom_identifies hroot
  have hbesideShown : beside.shownFrom root = "../b/x.js" := by decide +kernel
  refine ⟨⟨hroot, hinside, hbeside, hitself⟩, hshown, ?_, ?_, ?_⟩
  · rw [← hbesideShown]
    exact (hleads beside hbeside).resolved
  · intro hsame
    have hcomponents := ((hapart inside beside hinside hbeside).1 hsame).1
    exact absurd hcomponents (by decide +kernel)
  · intro template resolver catalog
    have htargets : ∀ p ∈ [inside, beside, itself], p.Direct := by
      simp only [List.forall_mem_cons, List.not_mem_nil, false_implies, implies_true, and_true]
      exact ⟨hinside, hbeside, hitself⟩
    have hdistinct : ([inside, beside, itself].map Path.components).Nodup := by decide +kernel
    have hall := (hreports _ htargets hdistinct).2 template resolver catalog
    exact hall.2.1 _ (List.reverse_perm _).symm

end Concord
