import Concord.Proofs.Lookup.Rules

/-!
# Paths with detours

The search for configuration goes upwards by the segments of a path as it is written, so that it
also comes to directories that the path enters and leaves again. A configuration there counts
although the file does not lie below it. Where none is come across, a path and the same path without
detours have the same rules and the same formatter options: what the search comes across again
further out was hit before (`Disk.sameFirst_of_detour`).
-/

namespace Concord

variable {α β : Type}

/-- To count only some hits leaves the first one as it is, if that one counts. -/
theorem findSome?_restrict {f : α → Option β} {keep : α → Prop} [DecidablePred keep]
    {items : List α} (h : ∀ item, IsFirst (fun other => (f other).isSome) items item → keep item) :
    items.findSome? f = items.findSome? fun item => if keep item then f item else none := by
  induction items with
  | nil => rfl
  | cons item rest ih =>
    rw [List.findSome?_cons, List.findSome?_cons]
    cases hitem : f item with
    | some b =>
      have hhit : (f item).isSome = true := by rw [hitem]; rfl
      have hkeep : keep item := h item ⟨[], rest, rfl, hhit, nofun⟩
      rw [if_pos hkeep]
    | none =>
      rw [ite_self]
      refine ih fun other hother => h other ?_
      obtain ⟨before, after, rfl, hhit, hbefore⟩ := hother
      have hmiss : (f item).isSome = false := by rw [hitem]; rfl
      exact ⟨item :: before, after, rfl, hhit, List.forall_mem_cons.2 ⟨hmiss, hbefore⟩⟩

/-! ## What lies around a file -/

namespace Disk

variable {d : Disk} {base p q start : Path} {name : String}

/-- Whether a directory contains what a path leads to, or is that itself. -/
def Around (d : Disk) (directory p : Path) : Prop :=
  ∃ outer inner, d.locate directory = .ok outer ∧ d.locate p = .ok (outer ++ inner)

/-- A path above a directory leads around it if its place lies around. -/
theorem around_iff (habsolute : start.isAbsolute = true) (hstart : d.LeadsIn start)
    (hq : q ∈ start.ancestors) : d.Around q start ↔ q.place [] <:+ start.place [] := by
  have hqAbsolute : q.isAbsolute = true := by
    rw [Path.isAbsolute_of_mem_ancestors hq, habsolute]
  unfold Around
  rw [(hstart.of_mem_ancestors hq).locate hqAbsolute, hstart.locate habsolute, ← List.reverse_prefix]
  constructor
  · rintro ⟨outer, inner, houter, hinner⟩
    obtain rfl : (q.place []).reverse = outer := Except.ok.inj houter
    exact ⟨inner, (Except.ok.inj hinner).symm⟩
  · rintro ⟨inner, hinner⟩
    exact ⟨_, inner, rfl, by rw [hinner]⟩

/-- On the way up from a directory the same is found as at the places that the way comes to. -/
theorem look_eq_of_mem_ancestors {look : Path → Option β}
    (hlook : ∀ q r, d.SameEntries q r → look q = look r) (habsolute : start.isAbsolute = true)
    (hstart : d.LeadsIn start) (hq : q ∈ start.ancestors) :
    look q = look (.ofPlace (q.place [])) := by
  have hqAbsolute : q.isAbsolute = true := by
    rw [Path.isAbsolute_of_mem_ancestors hq, habsolute]
  have hleads := hstart.of_mem_ancestors hq
  have hplace : q.place d.here = (Path.ofPlace (q.place [])).place d.here := by
    rw [Path.place_of_isAbsolute d.here hqAbsolute, Path.place_ofPlace]
    exact fun name => Path.isName_of_mem_place_top
  exact hlook q _ (hleads.sameEntries (hleads.ofPlace hqAbsolute) hplace)

/-- What is looked for on the way up has the first hits of the way straight up, if only what lies
around is counted. -/
theorem sameFirst_of_detour {look : Path → Option β}
    (hlook : ∀ q r, d.SameEntries q r → look q = look r) (habsolute : start.isAbsolute = true)
    (hstart : d.LeadsIn start) :
    SameFirst
      (start.ancestors.filterMap fun q => if q.place [] <:+ start.place [] then look q else none)
      ((Path.ofPlace (start.place [])).ancestors.filterMap look) := by
  obtain ⟨target, htarget⟩ : ∃ target, start.place [] = target := ⟨_, rfl⟩
  obtain ⟨f, hf⟩ : ∃ f : List String → Option β,
      f = fun place => if place <:+ target then look (.ofPlace place) else none := ⟨_, rfl⟩
  have hnames : ∀ name ∈ target, Path.IsName name := fun name hname => by
    rw [← htarget] at hname
    exact Path.isName_of_mem_place_top hname
  have hpath : (start.ancestors.filterMap fun q =>
      if q.place [] <:+ start.place [] then look q else none) =
      (start.ancestors.map (Path.place [])).filterMap f := by
    rw [List.filterMap_map]
    refine List.filterMap_congr fun q hq => ?_
    rw [Function.comp, hf, htarget, look_eq_of_mem_ancestors hlook habsolute hstart hq]
  have hstraight : (Path.ofPlace target).ancestors.filterMap look = target.tails.filterMap f := by
    rw [Path.ancestors_ofPlace hnames, List.filterMap_map]
    refine List.filterMap_congr fun place hplace => ?_
    rw [hf]
    dsimp only
    rw [if_pos ((List.mem_tails _ _).1 hplace)]
    rfl
  have htrail : Trail [] (start.ancestors.map (Path.place [])) := by
    have hancestors := Path.trail_ancestors [] start
    rwa [Path.origin, if_pos habsolute] at hancestors
  rw [hpath, htarget, hstraight]
  rw [Path.ancestors_eq, List.map_cons, htarget] at htrail ⊢
  refine htrail.sameFirst_filterMap fun place haside => ?_
  rw [hf]
  exact if_neg haside

/-- There is a document exactly where there is a file, readable or not. -/
theorem isSome_firstDocument? (d : Disk) (names : List String)
    (decode : Json → Except DecodeError α) (directory : Path) :
    (d.firstDocument? names decode directory).isSome = d.hasFile names directory := by
  unfold firstDocument?
  cases hfirst : d.firstFile? names directory with
  | none => exact (firstFile?_eq_none_iff.1 hfirst).symm
  | some path =>
    have hhas : d.hasFile names directory = true := by
      rw [← Bool.not_eq_false, ← firstFile?_eq_none_iff, hfirst]
      exact Option.some_ne_none path
    rw [hhas]
    rfl

/-- Whether the search ends in a directory can be told from what is loaded there. -/
theorem any_lintLayer? (d : Disk) (directory : Path) :
    (d.lintLayer? directory).any (·.any (·.root)) =
      (d.firstFile? lintFileNames directory).any d.isRootConfig := by
  cases hfirst : d.firstFile? lintFileNames directory with
  | none =>
    rw [lintLayer?_of_none hfirst]
    rfl
  | some path =>
    rw [lintLayer?_of_some hfirst, Option.any_some, Option.any_some, isRootConfig]
    cases d.loadLintConfig path <;> rfl

/-- A detour makes no difference to the rules if all that is found on it lies around the start. -/
theorem rulesFrom?_of_detour (habsolute : start.isAbsolute = true) (hstart : d.LeadsIn start)
    (haround : ∀ directory ∈ d.visitedDirectories start.ancestors,
      d.hasFile lintFileNames directory = true → d.Around directory start) :
    rulesFrom? (start.ancestors.filterMap d.lintLayer?) =
      rulesFrom? ((Path.ofPlace (start.place [])).ancestors.filterMap d.lintLayer?) := by
  rw [← rulesFrom?_congr (sameFirst_of_detour (fun q r => lintLayer?_congr) habsolute hstart)]
  unfold rulesFrom?
  rw [untilRoot_filterMap_congr fun directory hdirectory => ?_]
  simp only [any_lintLayer?] at hdirectory
  have hmem : directory ∈ start.ancestors := mem_of_mem_throughFirst hdirectory
  cases hlayer : d.lintLayer? directory with
  | none => rw [ite_self]
  | some layer =>
    have hhas : d.hasFile lintFileNames directory = true := by
      rw [← d.isSome_firstDocument? lintFileNames LintConfig.decode]
      rw [lintLayer?] at hlayer
      rw [hlayer]
      rfl
    have hsuffix := (around_iff habsolute hstart hmem).1 (haround directory hdirectory hhas)
    rw [if_pos hsuffix]

/-- An absolute path that names a file has a directory above it, and the search starts there. -/
theorem parent?_of_file (base : Path) (habsolute : p.isAbsolute = true)
    (hname : p.fileName? = some name) : p.parent? = some (startDirectory base (some p)) := by
  have hjoin := Path.join_of_isAbsolute base habsolute
  rw [← hjoin] at hname
  have hparent := parent?_join_of_fileName? hname
  rwa [hjoin] at hparent

/-- A path to a file leads, without detours, to the same name at the place of the same directory. -/
theorem resolved_of_file (base : Path) (habsolute : p.isAbsolute = true)
    (hname : p.fileName? = some name) :
    p.resolved = .ofPlace (name :: (startDirectory base (some p)).place []) ∧
      ∀ other ∈ name :: (startDirectory base (some p)).place [], Path.IsName other := by
  have hplace := Path.place_of_fileName? [] hname (parent?_of_file base habsolute hname)
  rw [← hplace]
  exact ⟨rfl, fun other => Path.isName_of_mem_place_top⟩

/-- Without its detours a path leads to the same directory, on the straight way to it. -/
theorem startDirectory_resolved (base : Path) (habsolute : p.isAbsolute = true)
    (hname : p.fileName? = some name) :
    startDirectory base (some p.resolved) =
      .ofPlace ((startDirectory base (some p)).place []) := by
  obtain ⟨hresolved, hnames⟩ := resolved_of_file base habsolute hname
  have hparent := parent?_of_file base (Path.isAbsolute_ofPlace _)
    (Path.fileName?_ofPlace_cons hnames)
  rw [Path.parent?_ofPlace_cons hnames] at hparent
  rw [hresolved]
  exact (Option.some.inj hparent).symm

/-- A detour makes no difference to the formatter options if the file that is found lies around the
start. -/
theorem formatOptionsAround_of_detour {file straight : Option Path}
    (habsolute : (startDirectory base file).isAbsolute = true)
    (hstart : d.LeadsIn (startDirectory base file))
    (hstraight : startDirectory base straight = .ofPlace ((startDirectory base file).place []))
    (haround : ∀ directory,
      IsFirst (d.hasFile formatFileNames) (searchedDirectories base file) directory →
        d.Around directory (startDirectory base file)) :
    (d.formatOptionsAround base file).toOption =
      (d.formatOptionsAround base straight).toOption := by
  obtain ⟨look, hlook⟩ : ∃ look, look = d.firstDocument? formatFileNames FormatOptions.decode :=
    ⟨_, rfl⟩
  have hcongr : ∀ q r, d.SameEntries q r → look q = look r := by
    intro q r h
    rw [hlook]
    exact firstDocument?_congr h (by decide)
  have hsame := sameFirst_of_detour hcongr habsolute hstart
  have hkeep : ∀ directory,
      IsFirst (fun other => (look other).isSome) (searchedDirectories base file) directory →
        directory.place [] <:+ (startDirectory base file).place [] := by
    intro directory hfirst
    simp only [hlook, isSome_firstDocument?] at hfirst
    exact (around_iff habsolute hstart hfirst.mem).1 (haround directory hfirst)
  rw [toOption_formatOptionsAround, toOption_formatOptionsAround, ← hlook, findSome?_restrict hkeep,
    searchedDirectories, searchedDirectories, hstraight, ← List.head?_filterMap,
    ← List.head?_filterMap, hsame.head?]

/-- Paths to files with detours, all of whose directories exist. The path without detours leads to
the same entry of the same directory. If all visited linter configurations lie in directories that
contain the file, both paths have the same rules for every file, or both searches fail; if the
nearest formatter options do, both have the same options. A path that does not go up is searched
through directories that contain the file alone. -/
theorem rules_of_detour (d : Disk) (base p : Path) (habsolute : p.isAbsolute = true)
    (hname : p.fileName?.isSome = true)
    (hdirectory : d.isDirectory (startDirectory base (some p)) = true) :
    let start := startDirectory base (some p)
    let searched := searchedDirectories base (some p)
    (d.locate (startDirectory base (some p.resolved)) = d.locate start ∧
      p.resolved.fileName? = p.fileName? ∧
      ∀ c ∈ p.resolved.components, c ≠ .current ∧ c ≠ .parent) ∧
    ((∀ directory ∈ d.visitedDirectories searched, d.hasFile lintFileNames directory = true →
        d.Around directory start) →
      d.rulesAround base (some p) = d.rulesAround base (some p.resolved)) ∧
    ((∀ directory, IsFirst (d.hasFile formatFileNames) searched directory →
        d.Around directory start) →
      (d.formatOptionsAround base (some p)).toOption =
        (d.formatOptionsAround base (some p.resolved)).toOption) ∧
    (.parent ∉ p.components → ∀ directory ∈ searched, d.Around directory start) := by
  intro start searched
  obtain ⟨name, hname⟩ := Option.isSome_iff_exists.1 hname
  obtain ⟨hresolved, hnames⟩ := resolved_of_file base habsolute hname
  have hparent := parent?_of_file base habsolute hname
  have hstraight := startDirectory_resolved base habsolute hname
  have hstartAbsolute : start.isAbsolute = true := by
    rw [Path.isAbsolute_parent? hparent, habsolute]
  have hstart : d.LeadsIn start := leadsIn_of_isDirectory hdirectory
  refine ⟨⟨?_, ?_, ?_⟩, ?_, ?_, ?_⟩
  · rw [hstraight, hstart.locate hstartAbsolute,
      (hstart.ofPlace hstartAbsolute).locate (Path.isAbsolute_ofPlace _), Path.place_ofPlace]
    exact fun other => Path.isName_of_mem_place_top
  · rw [hresolved, Path.fileName?_ofPlace_cons hnames, hname]
  · intro c hc
    rw [hresolved, Path.components_ofPlace hnames] at hc
    rcases List.mem_cons.1 hc with rfl | hentry
    · exact ⟨nofun, nofun⟩
    · obtain ⟨other, -, rfl⟩ := List.mem_map.1 hentry
      exact ⟨nofun, nofun⟩
  · intro haround
    rw [rulesAround_eq, rulesAround_eq, searchedDirectories, searchedDirectories, hstraight]
    exact rulesFrom?_of_detour hstartAbsolute hstart haround
  · exact formatOptionsAround_of_detour hstartAbsolute hstart hstraight
  · intro hup directory hmem
    have hstartUp := Path.parent_not_mem_parent? hup hparent
    exact (around_iff hstartAbsolute hstart hmem).2
      (Path.place_suffix_of_mem_ancestors [] hstartUp hmem)

/-- A disk with configuration in one directory that has a directory within and one beside. -/
def crossed : Disk where
  tree := .directory [
    ("a", .directory [(".eslintrc.json", .file (some "\x7b\"rules\":\x7b\"semi\":2\x7d\x7d")),
      (".prettierrc.json", .file (some "\x7b\"semi\":false\x7d")), ("b", .emptyDirectory)]),
    ("c", .emptyDirectory)]
  cwd := []

/-- A path that comes back to the directory with the configuration. -/
theorem rules_of_returning :
    let p : Path := ⟨"", ["a", "b", "..", "x.js"]⟩
    p.resolved = ⟨"", ["a", "x.js"]⟩ ∧
      crossed.rulesAround ⟨"", []⟩ (some p) = crossed.rulesAround ⟨"", []⟩ (some p.resolved) ∧
      ((crossed.rulesAround ⟨"", []⟩ (some p)).map fun rules =>
        ((rules none).find? "semi").map (·.severity)) = some (some .error) ∧
      (crossed.formatOptionsAround ⟨"", []⟩ (some p)).toOption =
        (crossed.formatOptionsAround ⟨"", []⟩ (some p.resolved)).toOption := by
  intro p
  obtain ⟨-, hrules, hoptions, -⟩ := rules_of_detour crossed ⟨"", []⟩ p (by decide +kernel)
    (by decide +kernel) (by decide +kernel)
  have hsearched : searchedDirectories ⟨"", []⟩ (some p) =
      [⟨"", ["a", "b", ".."]⟩, ⟨"", ["a", "b"]⟩, ⟨"", ["a"]⟩, ⟨"", [""]⟩] := by decide +kernel
  have haround : ∀ directory ∈ searchedDirectories ⟨"", []⟩ (some p),
      (crossed.hasFile lintFileNames directory ||
        crossed.hasFile formatFileNames directory) = true →
        crossed.Around directory (startDirectory ⟨"", []⟩ (some p)) := by
    intro directory hmem hhas
    rw [hsearched] at hmem
    simp only [List.mem_cons, List.not_mem_nil, or_false] at hmem
    rcases hmem with rfl | rfl | rfl | rfl
    · exact ⟨["a"], [], by decide +kernel, by decide +kernel⟩
    · exact absurd hhas (by decide +kernel)
    · exact ⟨["a"], [], by decide +kernel, by decide +kernel⟩
    · exact absurd hhas (by decide +kernel)
  refine ⟨by decide +kernel, hrules fun directory hvisited hhas => ?_, by decide +kernel,
    hoptions fun directory hfirst => ?_⟩
  · exact haround directory (mem_of_mem_throughFirst hvisited) (by rw [hhas]; rfl)
  · exact haround directory hfirst.mem (by rw [hfirst.passes, Bool.or_true])

/-- A path that goes through the directory with the configuration to the one beside has rules and
options that the path without the detour does not have. -/
theorem rules_of_passing_ne :
    let p : Path := ⟨"", ["a", "..", "c", "x.js"]⟩
    p.isAbsolute = true ∧ p.fileName?.isSome = true ∧
      crossed.isDirectory (startDirectory ⟨"", []⟩ (some p)) = true ∧
      p.resolved = ⟨"", ["c", "x.js"]⟩ ∧
      (∃ directory ∈ crossed.visitedDirectories (searchedDirectories ⟨"", []⟩ (some p)),
        crossed.hasFile lintFileNames directory = true ∧
          ¬ crossed.Around directory (startDirectory ⟨"", []⟩ (some p))) ∧
      crossed.rulesAround ⟨"", []⟩ (some p) ≠ crossed.rulesAround ⟨"", []⟩ (some p.resolved) ∧
      (crossed.formatOptionsAround ⟨"", []⟩ (some p)).toOption ≠
        (crossed.formatOptionsAround ⟨"", []⟩ (some p.resolved)).toOption := by
  intro p
  refine ⟨by decide +kernel, by decide +kernel, by decide +kernel, by decide +kernel,
    ⟨⟨"", ["a"]⟩, by decide +kernel, by decide +kernel, ?_⟩, ?_, ?_⟩
  · rintro ⟨outer, inner, houter, hinner⟩
    have hdirectory : crossed.locate ⟨"", ["a"]⟩ = .ok ["a"] := by decide +kernel
    have hstart : crossed.locate (startDirectory ⟨"", []⟩ (some p)) = .ok ["c"] := by decide +kernel
    obtain rfl : ["a"] = outer := Except.ok.inj (hdirectory.symm.trans houter)
    have hplaces : ["c"] = "a" :: inner := Except.ok.inj (hstart.symm.trans hinner)
    exact absurd (List.cons.inj hplaces).1 (by decide)
  · intro hsame
    have hsemi := congrArg (·.map fun rules => ((rules none).find? "semi").isSome) hsame
    revert hsemi
    decide +kernel
  · intro hsame
    have hempty := congrArg (·.map FormatOptions.isEmpty) hsame
    revert hempty
    decide +kernel

end Disk

end Concord
