import Concord.Proofs.Inspection.Reports
import Concord.Proofs.Lint.Location
import Concord.Proofs.Lookup.Spelling
import Concord.Proofs.Map.Collect
import Concord.Proofs.Plan.Formatting
import Mathlib.Data.List.Forall2
import Mathlib.Data.List.Perm.Basic

/-!
# Targets that are spelled differently

Which files the targets are does not depend on the order of the texts that name them, nor on how
often a text is given. But of several spellings of a file the one that is named first is kept, and
the formatter is told the text of the path. Reports on two spellings of a file differ in nothing
else (`OptionsReport.AlikeFor`).
-/

namespace Concord

/-! ## One file in two spellings -/

namespace Path

variable {p q : Path}

theorem fileName?_congr (h : p.components = q.components) : p.fileName? = q.fileName? := by
  rw [fileName?, fileName?, h]

theorem names_congr (h : p.components = q.components) : p.names = q.names := by
  rw [names, names, h]

/-- Two spellings are shown under one name, unless each is shown as it is spelled. -/
theorem shownFrom_congr (root : Path) (h : p.components = q.components) :
    p.shownFrom root = q.shownFrom root ∨
      p.shownFrom root = p.text ∧ q.shownFrom root = q.text := by
  have habsolute := isAbsolute_congr h
  unfold shownFrom relativeTo?
  rw [h, habsolute]
  cases hsides : q.isAbsolute != root.isAbsolute with
  | true =>
    cases q.isAbsolute with
    | true => exact .inr ⟨ite_self _, ite_self _⟩
    | false => exact .inr ⟨rfl, rfl⟩
  | false =>
    rw [if_neg Bool.false_ne_true, if_neg Bool.false_ne_true]
    cases (route? false q.components root.components).map ofComponents with
    | none => exact .inr ⟨rfl, rfl⟩
    | some way =>
      cases hway : way.isEmpty with
      | true => exact .inr ⟨if_pos hway, if_pos hway⟩
      | false => exact .inl (by simp only [hway, Bool.false_eq_true, if_false])

end Path

/-- That reports on `p` and `q` differ at most where one has the text of `p` and the other that of
`q`: in the file as it is shown, and in the option that names it. -/
structure OptionsReport.AlikeFor (p q : Path) (a b : OptionsReport) : Prop where
  file : a.file = b.file ∨ a.file = p.text ∧ b.file = q.text
  fixStage : a.fixStage = b.fixStage
  order : a.order = b.order
  typed : ∀ key, a.options.get? key = b.options.get? key
  names : a.options.extra.keys = b.options.extra.keys
  values : ∀ name, a.options.extra.find? name = b.options.extra.find? name ∨
    name = FormatRequest.fileOption ∧ a.options.extra.find? name = some (.string p.text) ∧
      b.options.extra.find? name = some (.string q.text)

/-- That two reports are on one file, each in a spelling of its own. -/
def OptionsReport.SameFile (a b : OptionsReport) : Prop :=
  ∃ p q : Path, p.components = q.components ∧ OptionsReport.AlikeFor p q a b

/-- The text that the formatter is told for a file, where it is told one. -/
def OptionsReport.toldFile? (report : OptionsReport) : Option String :=
  (report.options.extra.find? FormatRequest.fileOption).bind Json.string?

/-- A failed look-up counts as the default, for whatever reason it fails. -/
theorem orDefault_congr {ε α : Type} [Inhabited α] {x y : Except ε α}
    (h : x.toOption = y.toOption) : orDefault x = orDefault y := by
  cases x <;> cases y <;> cases h <;> rfl

/-- Whether there is a fixing pass depends on the components of the file alone. -/
theorem FixConfig.forFile?_congr {p q : Path} (h : p.components = q.components) (c : FixConfig) :
    c.forFile? (some p) = c.forFile? (some q) := by
  have hextension : p.extension? = q.extension? := by
    rw [Path.extension?, Path.extension?, Path.fileName?_congr h]
  have hhandles : c.handles p = c.handles q := by
    rw [handles, handles, dottedExtension, dottedExtension, hextension]
  have hparser : c.withDefaultParser p = c.withDefaultParser q := by
    rw [withDefaultParser, withDefaultParser, parserFor?, parserFor?, hextension]
  rw [forFile?, forFile?, hhandles, hparser]

namespace FormatRequest

variable {resolver : Resolver} {p q : Path}

/-- Two spellings of a file have the same configuration in force. -/
theorem lintInForce_congr (hresolver : resolver.GoesByComponents)
    (h : p.components = q.components) (template : FormatRequest) :
    (template.forFile p).lintInForce resolver = (template.forFile q).lintInForce resolver := by
  have hfound := orDefault_congr (hresolver.lintConfig p q h)
  show LintConfig.forFile (LintConfig.merge (orDefault (resolver.lintConfig (some p))) _) (some p) =
    LintConfig.forFile (LintConfig.merge (orDefault (resolver.lintConfig (some q))) _) (some q)
  rw [hfound]
  exact LintConfig.forFile_congr (Path.fileName?_congr h) (Path.names_congr h) _

/-- Two spellings of a file have the same formatter options around them. -/
theorem foundOptions_congr (hresolver : resolver.GoesByComponents)
    (h : p.components = q.components) (template : FormatRequest) :
    (template.forFile p).foundOptions resolver = (template.forFile q).foundOptions resolver :=
  congrArg (·.getD .empty) (hresolver.formatOptions p q h)

/-- The spelling of a file stands in the option that names it, and nowhere else. -/
theorem lookup_hintEntries (template : FormatRequest) (file : Path) (name : String) :
    (template.forFile file).hintEntries.lookup name =
      if name = fileOption then some (.string file.text) else none := by
  show List.lookup name [(fileOption, Json.string file.text)] = _
  by_cases hname : name = fileOption
  · rw [if_pos hname, hname, List.lookup_cons_self]
  · rw [if_neg hname, List.lookup_cons, beq_false_of_ne hname]
    rfl

section Plans

variable (hresolver : resolver.GoesByComponents) (h : p.components = q.components)
  (template : FormatRequest) (catalog : Catalog)

include hresolver h

/-- Two spellings of a file have the same fixing pass. -/
theorem fix_plan_congr :
    ((template.forFile p).plan resolver catalog).fix =
      ((template.forFile q).plan resolver catalog).fix := by
  unfold plan
  rw [lintInForce_congr hresolver h template]
  exact FixConfig.forFile?_congr h _

/-- Two spellings of a file have the same values for the nine options. -/
theorem get?_formatting_congr (key : FormatOption) :
    ((template.forFile p).plan resolver catalog).formatting.get? key =
      ((template.forFile q).plan resolver catalog).formatting.get? key := by
  show (FormatOptions.resolve _ _ _).get? key = (FormatOptions.resolve _ _ _).get? key
  rw [FormatOptions.get?_resolve, FormatOptions.get?_resolve, get?_explicitOptions,
    get?_explicitOptions, lintInForce_congr hresolver h, foundOptions_congr hresolver h]
  rfl

/-- Two spellings of a file have options of the same names passing through. -/
theorem keys_extra_formatting_congr :
    ((template.forFile p).plan resolver catalog).formatting.extra.keys =
      ((template.forFile q).plan resolver catalog).formatting.extra.keys := by
  show (FormatOptions.resolve _ _ _).extra.keys = (FormatOptions.resolve _ _ _).extra.keys
  rw [FormatOptions.extra_resolve, FormatOptions.extra_resolve, extra_explicitOptions,
    extra_explicitOptions, lintInForce_congr hresolver h, foundOptions_congr hresolver h]
  simp only [OrderedMap.keys_overlay, keys_extra_fileHint]
  rfl

/-- An option that passes through has the same value for both spellings, unless it is the hint. -/
theorem find?_extra_formatting_congr (name : String) :
    let formatting := fun file => ((template.forFile file).plan resolver catalog).formatting
    (formatting p).extra.find? name = (formatting q).extra.find? name ∨
      name = fileOption ∧ (formatting p).extra.find? name = some (.string p.text) ∧
        (formatting q).extra.find? name = some (.string q.text) := by
  show (FormatOptions.resolve _ _ _).extra.find? name =
      (FormatOptions.resolve _ _ _).extra.find? name ∨ name = fileOption ∧
    (FormatOptions.resolve _ _ _).extra.find? name = _ ∧
    (FormatOptions.resolve _ _ _).extra.find? name = _
  rw [FormatOptions.extra_resolve, FormatOptions.extra_resolve, extra_explicitOptions,
    extra_explicitOptions, lintInForce_congr hresolver h, foundOptions_congr hresolver h]
  simp only [OrderedMap.find?_overlay, find?_extra_fileHint, lookup_hintEntries]
  have hoptions : (template.forFile p).options = (template.forFile q).options := rfl
  rw [hoptions]
  generalize (template.forFile q).options.extra.find? name = given
  generalize ((template.forFile q).foundOptions resolver).extra.find? name = found
  -- The hint counts only for its own name, and only if nobody else gives that option.
  by_cases hname : name = fileOption
  · rw [if_pos hname, if_pos hname]
    cases given with
    | some value => exact .inl rfl
    | none =>
      cases found with
      | some value => exact .inl rfl
      | none => exact .inr ⟨hname, rfl, rfl⟩
  · rw [if_neg hname, if_neg hname]
    exact .inl rfl

/-- The reports on two spellings of a file are alike but for the spelling. -/
theorem alikeFor_optionsReport (root : Path) :
    OptionsReport.AlikeFor p q (template.optionsReport root resolver catalog p)
      (template.optionsReport root resolver catalog q) where
  file := Path.shownFrom_congr root h
  fixStage := congrArg Option.isSome (fix_plan_congr hresolver h template catalog)
  order := rfl
  typed := get?_formatting_congr hresolver h template catalog
  names := keys_extra_formatting_congr hresolver h template catalog
  values := find?_extra_formatting_congr hresolver h template catalog

end Plans

end FormatRequest

/-! ## Lists in two spellings -/

/-- Sorting treats lists alike whose items correspond and are ordered in the same way. -/
theorem forall₂_mergeSort {α : Type} {R : α → α → Prop} {le : α → α → Bool} {xs ys : List α}
    (hle : ∀ a b c d, R a c → R b d → le a b = le c d) (h : List.Forall₂ R xs ys) :
    List.Forall₂ R (xs.mergeSort le) (ys.mergeSort le) := by
  obtain ⟨hlength, hpairs⟩ := List.forall₂_iff_zip.1 h
  -- Sorting the pairs by either side is the same, so both sides are images of one sorted list.
  have hfirst : ∀ x ∈ xs.zip ys, ∀ y ∈ xs.zip ys, le x.1 y.1 = le x.1 y.1 := fun _ _ _ _ => rfl
  have hsecond : ∀ x ∈ xs.zip ys, ∀ y ∈ xs.zip ys, le x.1 y.1 = le x.2 y.2 :=
    fun _ hx _ hy => hle _ _ _ _ (hpairs hx) (hpairs hy)
  have hxs := List.map_mergeSort hfirst
  have hys := List.map_mergeSort hsecond
  rw [List.map_fst_zip hlength.le] at hxs
  rw [List.map_snd_zip hlength.ge] at hys
  rw [← hxs, ← hys, List.forall₂_map_left_iff, List.forall₂_map_right_iff,
    List.forall₂_same]
  exact fun pair hpair => hpairs (List.mem_mergeSort.1 hpair)

/-- Lists with the same images correspond item by item. -/
theorem forall₂_of_map_eq {α β : Type} {f : α → β} {xs ys : List α} (h : xs.map f = ys.map f) :
    List.Forall₂ (fun x y => f x = f y) xs ys := by
  rw [← List.forall₂_eq_eq_eq, List.forall₂_map_left_iff, List.forall₂_map_right_iff] at h
  exact h

namespace FormatRequest

variable {resolver : Resolver} {targets targets' : List Path}

/-- Lists of targets that correspond by components have reports that correspond, up to their order.
-/
theorem sameFile_optionsReports (hresolver : resolver.GoesByComponents)
    (hcomponents : targets.map Path.components = targets'.map Path.components)
    (template : FormatRequest) (root : Path) (catalog : Catalog) :
    ∃ reports, List.Forall₂ OptionsReport.SameFile
        (template.optionsReports root resolver catalog targets) reports ∧
      reports.Perm (template.optionsReports root resolver catalog targets') := by
  have hplanned : List.Forall₂ OptionsReport.SameFile
      (targets.map (template.optionsReport root resolver catalog))
      (targets'.map (template.optionsReport root resolver catalog)) := by
    rw [List.forall₂_map_left_iff, List.forall₂_map_right_iff]
    refine (forall₂_of_map_eq hcomponents).imp fun p q hpq => ?_
    exact ⟨p, q, hpq, alikeFor_optionsReport hresolver hpq template catalog root⟩
  obtain ⟨reports, hreports, hperm⟩ :=
    List.perm_comp_forall₂ (optionsReports_perm template root resolver catalog targets) hplanned
  exact ⟨reports, hreports, hperm.trans (optionsReports_perm ..).symm⟩

/-- Where other spellings are shown under the same names, the reports stand in the same order. -/
theorem forall₂_optionsReports (hresolver : resolver.GoesByComponents)
    (hcomponents : targets.map Path.components = targets'.map Path.components) {root : Path}
    (hshown : targets.map (·.shownFrom root) = targets'.map (·.shownFrom root))
    (template : FormatRequest) (catalog : Catalog) :
    List.Forall₂ (fun a b => a.file = b.file ∧ a.SameFile b)
      (template.optionsReports root resolver catalog targets)
      (template.optionsReports root resolver catalog targets') := by
  refine forall₂_mergeSort (fun a b c e hac hbe => by rw [hac.1, hbe.1]) ?_
  rw [List.forall₂_map_left_iff, List.forall₂_map_right_iff]
  have hsame := forall₂_of_map_eq hcomponents
  refine List.forall₂_iff_zip.2 ⟨hsame.length_eq, fun {p q} hpair => ?_⟩
  have hpq := List.forall₂_zip hsame hpair
  exact ⟨List.forall₂_zip (forall₂_of_map_eq hshown) hpair, p, q, hpq,
    alikeFor_optionsReport hresolver hpq template catalog root⟩

end FormatRequest

/-- Leaving out repetitions makes no difference to what is found first. -/
theorem sameFirst_eraseDups (items : List String) : SameFirst items.eraseDups items := by
  intro β f
  -- From the end of the list, since an item is dropped for the sake of those before it.
  induction items using List.reverseRecOn with
  | nil => rfl
  | append_singleton items item ih =>
    rw [eraseDups_concat, List.findSome?_append]
    split
    · next hmem =>
      rw [ih]
      cases hfound : items.findSome? f with
      | some hit => rfl
      | none =>
        rw [List.findSome?_singleton, List.findSome?_eq_none_iff.1 hfound item hmem]
        rfl
    · rw [List.findSome?_append, ih]

namespace Disk

variable {d : Disk} {root : Path} {texts texts' : List String} {targets targets' : List Path}

/-- Texts that name more have more targets. -/
theorem TargetsOf.subset (h : d.TargetsOf root texts targets)
    (h' : d.TargetsOf root texts' targets') (hsub : texts ⊆ texts') :
    targets.map Path.components ⊆ targets'.map Path.components := by
  intro components hmem
  obtain ⟨p, hp, rfl⟩ := List.mem_map.1 hmem
  obtain ⟨text, htext, q, hq, hqp⟩ := (h.named p).1 ⟨p, hp, rfl⟩
  exact List.mem_map.2 ((h'.named p).2 ⟨text, hsub htext, q, hq, hqp⟩)

/-- The texts determine the targets up to their spelling, in whatever order they are given. -/
theorem TargetsOf.components_eq (h : d.TargetsOf root texts targets)
    (h' : d.TargetsOf root texts' targets') (hsame : ∀ text, text ∈ texts ↔ text ∈ texts') :
    targets.map Path.components = targets'.map Path.components := by
  have hmem : ∀ components, components ∈ targets.map Path.components ↔
      components ∈ targets'.map Path.components := fun _ =>
    ⟨fun hmem => h.subset h' (fun text => (hsame text).1) hmem,
      fun hmem => h'.subset h (fun text => (hsame text).2) hmem⟩
  have hsorted : ∀ {targets : List Path}, targets.Pairwise Path.Before →
      (targets.map Path.components).Pairwise fun a b =>
        (Path.compareComponents a b).isLE = true :=
    fun hincreasing => hincreasing.map _ fun _ _ hbefore => by rw [hbefore]; rfl
  refine ((List.perm_ext_iff_of_nodup h.distinct h'.distinct).2 hmem).eq_of_pairwise ?_
    (hsorted h.increasing) (hsorted h'.increasing)
  intro a b _ _ hab hba
  exact Std.LawfulEqCmp.eq_of_compare (Std.OrientedCmp.isLE_antisymm hab hba)

/-- Naming a target twice in the same words makes no difference. -/
theorem targets_eraseDups (d : Disk) (root : Path) (texts : List String) :
    d.targets root texts.eraseDups = d.targets root texts :=
  targets_eq_iff.2 fun p => ((sameFirst_eraseDups texts).flatMap _).find? p.same

/-- Where no file is named in two spellings, the targets are all that is named. -/
theorem mem_targets_iff_of_one_spelling {p : Path}
    (hone : ∀ p ∈ texts.flatMap (d.named root), ∀ q ∈ texts.flatMap (d.named root),
      p.components = q.components → p = q) :
    p ∈ d.targets root texts ↔ p ∈ texts.flatMap (d.named root) := by
  refine ⟨named_of_mem_targets, fun hp => ?_⟩
  obtain ⟨q, hq, hqp⟩ := exists_target_of_named hp
  rwa [hone p hp q (named_of_mem_targets hq) hqp.symm]

/-- Where each target is spelled in one way, the order of the texts makes no difference to the
targets. -/
theorem targets_eq_of_one_spelling (hsame : ∀ text, text ∈ texts ↔ text ∈ texts')
    (hone : ∀ p ∈ texts.flatMap (d.named root), ∀ q ∈ texts.flatMap (d.named root),
      p.components = q.components → p = q) :
    d.targets root texts = d.targets root texts' := by
  have hmem : ∀ p, p ∈ texts.flatMap (d.named root) ↔ p ∈ texts'.flatMap (d.named root) := by
    simp [List.mem_flatMap, hsame]
  refine (pairwise_targets d root texts).eq_of_mem_iff (pairwise_targets d root texts') fun p => ?_
  rw [mem_targets_iff_of_one_spelling hone, hmem, mem_targets_iff_of_one_spelling]
  exact fun p hp q hq => hone p ((hmem p).2 hp) q ((hmem q).2 hq)

/-- Of two spellings of a path the one that is named first is the target. -/
theorem targets_of_spellings {text text' : String}
    (hplain : ∀ c ∈ text.toList, c ≠ '*' ∧ c ≠ '?' ∧ c ≠ '[')
    (hplain' : ∀ c ∈ text'.toList, c ≠ '*' ∧ c ≠ '?' ∧ c ≠ '[')
    (h : (root.join (.ofText text)).components = (root.join (.ofText text')).components) :
    d.targets root [text, text'] = [root.join (.ofText text)] := by
  have hnamed : [text, text'].flatMap (d.named root) =
      [root.join (.ofText text), root.join (.ofText text')] := by
    simp [named_of_plain hplain, named_of_plain hplain']
  have hsorted : [root.join (.ofText text), root.join (.ofText text')].Pairwise fun p q =>
      p.le q = true := by
    simpa using Path.le_of_same h
  rw [targets, hnamed, List.mergeSort_of_pairwise hsorted, firstOfRuns_of_same (Path.same_iff.2 h)]
  rfl

/-- Of two spellings of one file the formatter is told the first. -/
theorem map_toldFile?_of_spellings {text text' : String}
    (hplain : ∀ c ∈ text.toList, c ≠ '*' ∧ c ≠ '?' ∧ c ≠ '[')
    (hplain' : ∀ c ∈ text'.toList, c ≠ '*' ∧ c ≠ '?' ∧ c ≠ '[')
    (h : (root.join (.ofText text)).components = (root.join (.ofText text')).components) :
    (FormatRequest.optionsReports {} root .nothing .fallback
      (d.targets root [text, text'])).map OptionsReport.toldFile? =
        [some (root.join (.ofText text)).text] := by
  rw [targets_of_spellings hplain hplain' h, FormatRequest.optionsReports_singleton]
  rfl

/-- Lists with the same texts have the same targets up to their spelling. How often a text is given
makes no difference; the order of the texts makes one only where another spelling of a file comes
first, and none for any reports if no file is named in two spellings. Reports on other spellings,
with configuration that is found by components as it is on a disk, differ in nothing but the text of
the path, and stand in the same order if the files are shown under the same names. -/
theorem reports_of_same_texts (d : Disk) (root : Path) {texts texts' : List String}
    (hsame : ∀ text, text ∈ texts ↔ text ∈ texts') :
    let targets := d.targets root texts
    let targets' := d.targets root texts'
    let named := texts.flatMap (d.named root)
    targets.map Path.components = targets'.map Path.components ∧
    d.targets root texts.eraseDups = targets ∧
    (targets = targets' ↔
      ∀ p : Path, named.find? p.same = (texts'.flatMap (d.named root)).find? p.same) ∧
    (∀ base, (d.resolver base).GoesByComponents) ∧
    ∀ (template : FormatRequest) (resolver : Resolver) (catalog : Catalog),
      let reports := template.optionsReports root resolver catalog
      ((∀ p ∈ named, ∀ q ∈ named, p.components = q.components → p = q) →
        reports targets = reports targets') ∧
      (resolver.GoesByComponents →
        (∃ others, List.Forall₂ OptionsReport.SameFile (reports targets) others ∧
          others.Perm (reports targets')) ∧
        (targets.map (·.shownFrom root) = targets'.map (·.shownFrom root) →
          List.Forall₂ (fun a b => a.file = b.file ∧ a.SameFile b) (reports targets)
            (reports targets'))) := by
  have hcomponents := (targetsOf_targets d root texts).components_eq
    (targetsOf_targets d root texts') hsame
  refine ⟨hcomponents, targets_eraseDups d root texts, targets_eq_iff,
    goesByComponents_resolver d, fun template resolver catalog => ⟨fun hone => ?_, ?_⟩⟩
  · rw [targets_eq_of_one_spelling hsame hone]
  · intro hresolver
    refine ⟨?_, fun hshown => ?_⟩
    · exact FormatRequest.sameFile_optionsReports hresolver hcomponents template root catalog
    · exact FormatRequest.forall₂_optionsReports hresolver hcomponents hshown template catalog

/-- Texts that name one file in two spellings, and texts that name two files in one each. -/
theorem reports_of_two_orders :
    let d : Disk := ⟨.directory [], []⟩
    let root : Path := .ofText "/r"
    let reports := fun texts =>
      FormatRequest.optionsReports {} root (d.resolver root) .fallback (d.targets root texts)
    List.Forall₂ (fun a b => a.file = b.file ∧ a.SameFile b)
        (reports ["a.js", "./a.js"]) (reports ["./a.js", "a.js"]) ∧
      reports ["a.js", "b.js", "a.js"] = reports ["b.js", "a.js"] := by
  intro d root reports
  have hspellings : ∀ text, text ∈ ["a.js", "./a.js"] ↔ text ∈ ["./a.js", "a.js"] := by
    simp [or_comm]
  have hfiles : ∀ text, text ∈ ["a.js", "b.js", "a.js"] ↔ text ∈ ["b.js", "a.js"] := by
    simp only [List.mem_cons, List.not_mem_nil, or_false]
    tauto
  constructor
  · obtain ⟨-, -, -, hdisk, hreports⟩ := reports_of_same_texts d root hspellings
    refine ((hreports {} (d.resolver root) .fallback).2 (hdisk root)).2 ?_
    rw [targets_of_spellings (by simp) (by simp) (by decide +kernel),
      targets_of_spellings (by simp) (by simp) (by decide +kernel)]
    decide +kernel
  · obtain ⟨-, -, -, -, hreports⟩ := reports_of_same_texts d root hfiles
    exact (hreports {} (d.resolver root) .fallback).1 (by decide +kernel)

/-- The order of two texts that name one file decides what the formatter is told. -/
theorem toldFile?_of_two_orders :
    let d : Disk := ⟨.directory [], []⟩
    let root : Path := .ofText "/r"
    let reports := fun texts =>
      FormatRequest.optionsReports {} root .nothing .fallback (d.targets root texts)
    (∀ text, text ∈ ["a.js", "./a.js"] ↔ text ∈ ["./a.js", "a.js"]) ∧
      (reports ["a.js", "./a.js"]).map OptionsReport.toldFile? = [some "/r/a.js"] ∧
      (reports ["./a.js", "a.js"]).map OptionsReport.toldFile? = [some "/r/./a.js"] ∧
      reports ["a.js", "./a.js"] ≠ reports ["./a.js", "a.js"] := by
  intro d root reports
  have hplain : (reports ["a.js", "./a.js"]).map OptionsReport.toldFile? = [some "/r/a.js"] :=
    map_toldFile?_of_spellings (by simp) (by simp) (by decide +kernel)
  have hdotted : (reports ["./a.js", "a.js"]).map OptionsReport.toldFile? = [some "/r/./a.js"] :=
    map_toldFile?_of_spellings (by simp) (by simp) (by decide +kernel)
  refine ⟨by simp [or_comm], hplain, hdotted, fun hsame => ?_⟩
  rw [hsame, hdotted] at hplain
  simp at hplain

end Disk

end Concord
