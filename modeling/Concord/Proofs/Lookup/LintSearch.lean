import Concord.Proofs.Lookup.Files
import Concord.Proofs.Path.Ancestors
import Mathlib.Data.List.Forall2

/-!
# The search for linter configuration

The search visits the first configuration file of each directory, from the innermost directory
upwards, and ends with the first one that calls itself the root. `Disk.lintLayers_eq_mapM` says that
it loads the visited files and nothing else, so that the first one that cannot be loaded decides a
failure, and that what lies above the end of the search, or behind the first file of a directory,
has no say (`Disk.lintLayers_congr`).
-/

namespace Concord

/-! ## Loading one after another -/

section Loading

variable {α β ε : Type}

theorem map_eq_ok_iff {x : Except ε α} {f : α → β} {b : β} :
    x.map f = .ok b ↔ ∃ a, x = .ok a ∧ f a = b := by
  cases x <;> simp [Except.map]

theorem map_eq_error_iff {x : Except ε α} {f : α → β} {failure : ε} :
    x.map f = .error failure ↔ x = .error failure := by
  cases x <;> simp [Except.map]

/-- A load that succeeds puts its result before those of the rest. -/
theorem mapM_cons_ok {load : α → Except ε β} {item : α} {result : β} (rest : List α)
    (h : load item = .ok result) :
    (item :: rest).mapM load = (rest.mapM load).map (result :: ·) := by
  rw [List.mapM_cons, h]
  cases rest.mapM load <;> rfl

/-- A load that fails keeps the rest from being tried. -/
theorem mapM_cons_error {load : α → Except ε β} {item : α} {failure : ε} (rest : List α)
    (h : load item = .error failure) : (item :: rest).mapM load = .error failure := by
  rw [List.mapM_cons, h]
  rfl

/-- All items are loaded exactly if each of them is, and the results stand in the same order. -/
theorem mapM_eq_ok_iff {load : α → Except ε β} {items : List α} {results : List β} :
    items.mapM load = .ok results ↔
      List.Forall₂ (fun item result => load item = .ok result) items results := by
  induction items generalizing results with
  | nil => cases results <;> simp [pure, Except.pure]
  | cons item rest ih =>
    cases h : load item with
    | error failure =>
      rw [mapM_cons_error rest h]
      cases results <;> simp [h]
    | ok result =>
      rw [mapM_cons_ok rest h, map_eq_ok_iff]
      constructor
      · rintro ⟨others, hothers, rfl⟩
        exact .cons h (ih.1 hothers)
      · intro hall
        obtain ⟨first, others, hfirst, hothers, rfl⟩ := List.forall₂_cons_left_iff.1 hall
        obtain rfl : result = first := Except.ok.inj (h.symm.trans hfirst)
        exact ⟨others, ih.2 hothers, rfl⟩

/-- The first item that cannot be loaded decides the failure. -/
theorem mapM_eq_error_iff {load : α → Except ε β} {items : List α} {failure : ε} :
    items.mapM load = .error failure ↔
      ∃ before item after, items = before ++ item :: after ∧
        (∀ other ∈ before, ∃ result, load other = .ok result) ∧ load item = .error failure := by
  constructor
  · induction items with
    | nil => intro h; cases h
    | cons item rest ih =>
      intro hfails
      cases h : load item with
      | error reason =>
        rw [mapM_cons_error rest h] at hfails
        obtain rfl : reason = failure := Except.error.inj hfails
        exact ⟨[], item, rest, rfl, by simp, h⟩
      | ok result =>
        rw [mapM_cons_ok rest h, map_eq_error_iff] at hfails
        obtain ⟨before, other, after, rfl, hbefore, hother⟩ := ih hfails
        refine ⟨item :: before, other, after, rfl, ?_, hother⟩
        exact List.forall_mem_cons.2 ⟨⟨result, h⟩, hbefore⟩
  · rintro ⟨before, item, after, rfl, hbefore, hitem⟩
    induction before with
    | nil => exact mapM_cons_error after hitem
    | cons first rest ih =>
      obtain ⟨⟨result, hfirst⟩, hrest⟩ := List.forall_mem_cons.1 hbefore
      rw [List.cons_append, mapM_cons_ok _ hfirst, ih hrest]
      rfl

/-- Some item that cannot be loaded makes it fail, if only by an earlier one. -/
theorem exists_mapM_eq_error {load : α → Except ε β} {items : List α} {item : α} {failure : ε}
    (hitem : item ∈ items) (hfailure : load item = .error failure) :
    ∃ first, items.mapM load = .error first := by
  induction items with
  | nil => cases hitem
  | cons other rest ih =>
    cases hother : load other with
    | error first => exact ⟨first, mapM_cons_error rest hother⟩
    | ok result =>
      have hrest : item ∈ rest := by
        rcases List.mem_cons.1 hitem with rfl | hrest
        · rw [hfailure] at hother
          cases hother
        · exact hrest
      obtain ⟨first, hfirst⟩ := ih hrest
      refine ⟨first, ?_⟩
      rw [mapM_cons_ok rest hother, hfirst]
      rfl

/-- What is loaded depends on how each of the items is. -/
theorem mapM_congr {load load' : α → Except ε β} {items : List α}
    (h : ∀ item ∈ items, load item = load' item) : items.mapM load = items.mapM load' := by
  induction items with
  | nil => rfl
  | cons item rest ih =>
    obtain ⟨hitem, hrest⟩ := List.forall_mem_cons.1 h
    rw [List.mapM_cons, List.mapM_cons, hitem, ih hrest]

end Loading

namespace Disk

/-! ## What is visited -/

/-- Whether a path leads to a configuration that can be loaded and calls itself the root. -/
def isRootConfig (d : Disk) (p : Path) : Bool :=
  match d.loadLintConfig p with
  | .ok config => config.root
  | .error _ => false

/-- The first configuration files of directories, up to the first one that calls itself the
root. -/
def visitedConfigs (d : Disk) (directories : List Path) : List Path :=
  throughFirst d.isRootConfig (directories.filterMap (d.firstFile? lintFileNames))

/-- The directories up to the first one whose configuration file calls itself the root. -/
def visitedDirectories (d : Disk) (directories : List Path) : List Path :=
  throughFirst (fun directory => (d.firstFile? lintFileNames directory).any d.isRootConfig)
    directories

/-- Each visited directory contributes its first file to what is visited, if it has one. -/
theorem filterMap_visitedDirectories (d : Disk) (directories : List Path) :
    (d.visitedDirectories directories).filterMap (d.firstFile? lintFileNames) =
      d.visitedConfigs directories :=
  filterMap_throughFirst (d.firstFile? lintFileNames) d.isRootConfig directories

/-- A directory without a configuration is passed over. -/
theorem lintLayers_cons_none {d : Disk} {directory : Path} (above : List Path)
    (hfirst : d.firstFile? lintFileNames directory = none) :
    d.lintLayers (directory :: above) = d.lintLayers above := by
  rw [lintLayers, hfirst]

/-- A configuration that calls itself the root is the last layer. -/
theorem lintLayers_cons_some {d : Disk} {directory path : Path} {config : LintConfig}
    (above : List Path) (hfirst : d.firstFile? lintFileNames directory = some path)
    (hload : d.loadLintConfig path = .ok config) :
    d.lintLayers (directory :: above) =
      if config.root then .ok [config] else (d.lintLayers above).map (config :: ·) := by
  rw [lintLayers, hfirst]
  simp only [hload]
  cases d.lintLayers above <;> rfl

/-- A configuration that cannot be loaded makes the whole search fail. -/
theorem lintLayers_cons_error {d : Disk} {directory path : Path} {failure : LookupFailure}
    (above : List Path) (hfirst : d.firstFile? lintFileNames directory = some path)
    (hload : d.loadLintConfig path = .error failure) :
    d.lintLayers (directory :: above) = .error failure := by
  rw [lintLayers, hfirst]
  simp only [hload]
  rfl

/-- The search loads the visited files one after another. -/
theorem lintLayers_eq_mapM (d : Disk) (directories : List Path) :
    d.lintLayers directories = (d.visitedConfigs directories).mapM d.loadLintConfig := by
  unfold visitedConfigs
  -- Directories without a file are passed over on both sides.
  induction directories with
  | nil => rfl
  | cons directory above ih =>
    cases hfirst : d.firstFile? lintFileNames directory with
    | none =>
      rw [lintLayers_cons_none above hfirst, List.filterMap_cons_none hfirst]
      exact ih
    | some path =>
      rw [List.filterMap_cons_some hfirst, throughFirst]
      cases hload : d.loadLintConfig path with
      | error failure =>
        have hroot : ¬ d.isRootConfig path := by simp [isRootConfig, hload]
        rw [lintLayers_cons_error above hfirst hload, if_neg hroot, mapM_cons_error _ hload]
      | ok config =>
        have hroot : d.isRootConfig path = config.root := by simp [isRootConfig, hload]
        rw [lintLayers_cons_some above hfirst hload, hroot, ih]
        split
        · rw [mapM_cons_ok _ hload]
          rfl
        · rw [mapM_cons_ok _ hload]

/-! ## What has no say -/

/-- The configuration of a directory depends on the files that are tried there. -/
theorem loadLintConfig_congr {d e : Disk} {directory p : Path}
    (h : ∀ q ∈ d.tried lintFileNames directory, d.file? q = e.file? q)
    (hfirst : d.firstFile? lintFileNames directory = some p) :
    d.loadLintConfig p = e.loadLintConfig p :=
  load_congr (isFile_of_firstFile? hfirst) (h p (mem_tried_of_firstFile? hfirst)) _

/-- Two disks that have the same files at the paths that are tried on the way to the end of the
search have the same configurations in the visited directories. -/
theorem lintLayers_congr {d e : Disk} {directories : List Path}
    (h : ∀ directory ∈ d.visitedDirectories directories,
      ∀ p ∈ d.tried lintFileNames directory, d.file? p = e.file? p) :
    d.lintLayers directories = e.lintLayers directories := by
  have hfirst : ∀ directory ∈ d.visitedDirectories directories,
      d.firstFile? lintFileNames directory = e.firstFile? lintFileNames directory :=
    fun directory hdirectory => firstFile?_congr (h directory hdirectory)
  have hload : ∀ p ∈ d.visitedConfigs directories, d.loadLintConfig p = e.loadLintConfig p := by
    intro p hp
    rw [← filterMap_visitedDirectories] at hp
    obtain ⟨directory, hdirectory, hfound⟩ := List.mem_filterMap.1 hp
    exact loadLintConfig_congr (h directory hdirectory) hfound
  -- Whether the search ends in a directory depends on the first file there, so that both searches
  -- end in the same one.
  have hends : ∀ directory ∈ d.visitedDirectories directories,
      (d.firstFile? lintFileNames directory).any d.isRootConfig =
        (e.firstFile? lintFileNames directory).any e.isRootConfig := by
    intro directory hdirectory
    rw [← hfirst directory hdirectory]
    cases hfound : d.firstFile? lintFileNames directory with
    | none => rfl
    | some p =>
      have hsame := loadLintConfig_congr (h directory hdirectory) hfound
      simp [isRootConfig, hsame]
  have hdirectories : d.visitedDirectories directories = e.visitedDirectories directories :=
    throughFirst_congr hends
  have hconfigs : d.visitedConfigs directories = e.visitedConfigs directories := by
    rw [← filterMap_visitedDirectories, ← filterMap_visitedDirectories, ← hdirectories]
    exact List.filterMap_congr hfirst
  rw [lintLayers_eq_mapM, lintLayers_eq_mapM, ← hconfigs]
  exact mapM_congr hload

/-! ## The configuration around a file -/

/-- What the search for the configuration around a file comes to. It goes through the directory of
the file and those above it, and visits their configuration files up to the first one that calls
itself the root. It fails exactly if a visited file cannot be loaded, and names the innermost such
file; otherwise the visited configurations are merged, outer ones first. Neither what lies above the
end of the search nor a candidate behind the first file of its directory has a say. -/
theorem lintConfigAround_visits (d : Disk) (base : Path) (file : Option Path) :
    let start := startDirectory base file
    let directories := start.ancestors
    let visited := d.visitedConfigs directories
    StartsIn base file start ∧
    (∀ p : Path, p.ancestors = p :: p.parent?.elim [] Path.ancestors) ∧
    (∀ config, d.lintConfigAround base file = .ok config ↔
      ∃ layers, List.Forall₂ (fun path layer => d.loadLintConfig path = .ok layer) visited layers ∧
        LintConfig.mergeAll layers.reverse = config) ∧
    ((∃ failure, d.lintConfigAround base file = .error failure) ↔
      ∃ path ∈ visited, ∃ failure, d.loadLintConfig path = .error failure) ∧
    (∀ failure, d.lintConfigAround base file = .error failure ↔
      ∃ inner outer, visited = inner ++ failure.path :: outer ∧
        (∀ path ∈ inner, ∃ layer, d.loadLintConfig path = .ok layer) ∧
        d.loadLintConfig failure.path = .error failure) ∧
    (∀ e : Disk,
      (∀ directory ∈ d.visitedDirectories directories, ∀ name ∈ lintFileNames,
        d.file? (directory.entry name) = e.file? (directory.entry name)) →
      d.lintConfigAround base file = e.lintConfigAround base file) ∧
    ∀ e : Disk,
      (∀ directory ∈ d.visitedDirectories directories, ∀ path ∈ d.tried lintFileNames directory,
        d.file? path = e.file? path) →
      d.lintConfigAround base file = e.lintConfigAround base file := by
  intro start directories visited
  -- From here on the search is a loop over the visited files.
  have haround : d.lintConfigAround base file =
      (visited.mapM d.loadLintConfig).map fun layers => .mergeAll layers.reverse := by
    rw [← lintLayers_eq_mapM]
    rfl
  have hfails : ∀ failure, d.lintConfigAround base file = .error failure ↔
      ∃ inner outer, visited = inner ++ failure.path :: outer ∧
        (∀ path ∈ inner, ∃ layer, d.loadLintConfig path = .ok layer) ∧
        d.loadLintConfig failure.path = .error failure := by
    intro failure
    rw [haround, map_eq_error_iff, mapM_eq_error_iff]
    constructor
    · rintro ⟨inner, path, outer, hvisited, hinner, hpath⟩
      obtain rfl : failure.path = path := path_of_load_eq_error hpath
      exact ⟨inner, outer, hvisited, hinner, hpath⟩
    · rintro ⟨inner, outer, hvisited, hinner, hpath⟩
      exact ⟨inner, failure.path, outer, hvisited, hinner, hpath⟩
  have htried : ∀ e : Disk,
      (∀ directory ∈ d.visitedDirectories directories, ∀ path ∈ d.tried lintFileNames directory,
        d.file? path = e.file? path) →
      d.lintConfigAround base file = e.lintConfigAround base file := by
    intro e hsame
    have hlayers : d.lintLayers (searchedDirectories base file) =
        e.lintLayers (searchedDirectories base file) := lintLayers_congr hsame
    rw [lintConfigAround, lintConfigAround, hlayers]
  refine ⟨startsIn_iff.2 rfl, Path.ancestors_eq, ?_, ⟨?_, ?_⟩, hfails, ?_, htried⟩
  · intro config
    rw [haround, map_eq_ok_iff]
    simp only [mapM_eq_ok_iff]
  · rintro ⟨failure, hfailure⟩
    obtain ⟨inner, outer, hvisited, -, hpath⟩ := (hfails failure).1 hfailure
    refine ⟨failure.path, ?_, failure, hpath⟩
    rw [hvisited]
    exact List.mem_append_right inner List.mem_cons_self
  · rintro ⟨path, hpath, failure, hfailure⟩
    obtain ⟨first, hfirst⟩ := exists_mapM_eq_error hpath hfailure
    refine ⟨first, ?_⟩
    rw [haround, hfirst]
    rfl
  · intro e hsame
    refine htried e fun directory hdirectory path hpath => ?_
    obtain ⟨name, hname, rfl⟩ := List.mem_map.1 (mem_of_mem_throughFirst hpath)
    exact hsame directory hdirectory name hname

/-- A disk with a directory whose configuration calls itself the root. Other entries stand beside
that configuration and above the directory. -/
def rooted (beside above : List (String × Node)) : Disk where
  tree := .directory <|
    ("a", .directory ((".eslintrc.json", .file (some "\x7b\"root\":true\x7d")) :: beside)) :: above
  cwd := []

/-- The disk with broken configurations beside and above that one. -/
def crowded : Disk := rooted [(".eslintrc.yml", .file none)] [(".eslintrc.json", .file (some "?"))]

/-- The broken configurations might as well be missing: the search ends before it comes to them, be
it for a text without a file or for a file in a directory below. -/
theorem lintConfigAround_crowded :
    let below : Path := .ofText "b/x.js"
    StartsIn ⟨"", ["a"]⟩ (some below) ⟨"", ["a", "b"]⟩ ∧
      crowded.lintConfigAround ⟨"", ["a"]⟩ (some below) =
        (rooted [] []).lintConfigAround ⟨"", ["a"]⟩ (some below) ∧
      crowded.lintConfigAround ⟨"", ["a"]⟩ none = (rooted [] []).lintConfigAround ⟨"", ["a"]⟩ none ∧
      (rooted [] []).lintConfigAround ⟨"", ["a"]⟩ none = .ok { root := true } := by
  intro below
  have hstart : startDirectory ⟨"", ["a"]⟩ (some below) = ⟨"", ["a", "b"]⟩ := by decide +kernel
  obtain ⟨hbelow, -, -, -, -, -, htriedBelow⟩ :=
    lintConfigAround_visits crowded ⟨"", ["a"]⟩ (some below)
  obtain ⟨-, -, -, -, -, -, htried⟩ := lintConfigAround_visits crowded ⟨"", ["a"]⟩ none
  have hsame : ∀ path ∈ crowded.tried lintFileNames ⟨"", ["a"]⟩,
      crowded.file? path = (rooted [] []).file? path := by decide +kernel
  have hsameBelow : ∀ path ∈ crowded.tried lintFileNames ⟨"", ["a", "b"]⟩,
      crowded.file? path = (rooted [] []).file? path := by decide +kernel
  have hvisited : crowded.visitedDirectories [⟨"", ["a"]⟩, ⟨"", [""]⟩] = [⟨"", ["a"]⟩] := by
    decide +kernel
  have hvisitedBelow : crowded.visitedDirectories (startDirectory ⟨"", ["a"]⟩ below).ancestors =
      [⟨"", ["a", "b"]⟩, ⟨"", ["a"]⟩] := by decide +kernel
  refine ⟨hstart ▸ hbelow, htriedBelow (rooted [] []) ?_, htried (rooted [] []) ?_, by rfl⟩
  · intro directory hdirectory
    rw [hvisitedBelow, List.mem_pair] at hdirectory
    rcases hdirectory with rfl | rfl
    · exact hsameBelow
    · exact hsame
  · intro directory hdirectory
    obtain rfl : directory = ⟨"", ["a"]⟩ := List.mem_singleton.1 (hvisited ▸ hdirectory)
    exact hsame

end Disk

end Concord
