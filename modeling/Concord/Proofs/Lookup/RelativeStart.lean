import Concord.Proofs.Lookup.Rules
import Concord.Proofs.Settings.InEffect

/-!
# Searches that start from a relative path

The way up from a relative path ends in the working directory, that from an absolute one at the top.
Apart from what lies above the working directory both come to the same places: the absolute search
has the first hits of the relative one followed by those above (`Path.sameFirst_ancestors`). So the
two agree as long as the relative search ends by itself, or nothing lies above.
-/

namespace Concord

variable {α β : Type}

namespace SameFirst

theorem cons (item : α) {xs ys : List α} (h : SameFirst xs ys) :
    SameFirst (item :: xs) (item :: ys) := by
  intro γ g
  rw [List.findSome?_cons, List.findSome?_cons, h γ g]

/-- An item that stands there twice in a row might as well stand there once. -/
theorem twice (item : α) (xs : List α) : SameFirst (item :: item :: xs) (item :: xs) := by
  intro γ g
  rw [List.findSome?_cons]
  cases hitem : g item with
  | none => rfl
  | some hit => rw [List.findSome?_cons, hitem]

theorem trans {xs ys zs : List α} (h : SameFirst xs ys) (h' : SameFirst ys zs) :
    SameFirst xs zs := fun γ g => (h γ g).trans (h' γ g)

end SameFirst

namespace Path

variable {p q : Path} {here : List String}

/-! ## The way up without detours -/

theorem current_not_mem_of_isAbsolute (h : p.isAbsolute = true) : .current ∉ p.components := by
  intro hcurrent
  rw [components_of_isAbsolute h] at hcurrent
  rcases List.mem_cons.1 hcurrent with htop | hrest
  · cases htop
  · obtain ⟨segment, -, hsegment⟩ := List.mem_filterMap.1 hrest
    exact component?_ne_current segment hsegment

/-- A step up from a path that does not go up itself leaves a directory, or nothing but a dot. -/
theorem place_parent?_cases (here : List String) (hup : .parent ∉ p.components)
    (hparent : p.parent? = some q) :
    (∃ name, p.place here = name :: q.place here) ∨
      .current ∈ p.components ∧ p.place here = q.place here := by
  obtain ⟨c, hcomponents, hroot, hplace⟩ := place_parent? here hparent
  have hc : c ∈ p.components := by
    rw [hcomponents]
    exact List.mem_append_right _ List.mem_cons_self
  cases c with
  | root => exact absurd rfl hroot
  | parent => exact absurd hc hup
  | current => exact .inr ⟨hc, hplace⟩
  | normal name => exact .inl ⟨name, hplace⟩

/-- The way up from an absolute path that does not go up itself is the way straight up. -/
theorem map_place_ancestors (habsolute : p.isAbsolute = true) (hup : .parent ∉ p.components)
    (here : List String) : p.ancestors.map (place here) = (p.place here).tails := by
  induction p using parent_induction with
  | h p ih =>
    rw [ancestors_eq, List.map_cons]
    cases hparent : p.parent? with
    | none =>
      rw [place_of_parent?_eq_none here hparent, origin, if_pos habsolute]
      rfl
    | some q =>
      have hqAbsolute : q.isAbsolute = true := by rw [isAbsolute_parent? hparent, habsolute]
      have hqUp := parent_not_mem_parent? hup hparent
      obtain ⟨name, hplace⟩ | ⟨hdot, -⟩ := place_parent?_cases here hup hparent
      · rw [Option.elim_some, ih q hparent hqAbsolute hqUp, hplace]
        rfl
      · exact absurd hdot (current_not_mem_of_isAbsolute habsolute)

/-- The way up from a relative path that does not go up itself, continued above `here`, has the
first hits of the way straight up. -/
theorem sameFirst_ancestors (hrelative : p.isAbsolute = false) (hup : .parent ∉ p.components)
    (here : List String) :
    SameFirst (p.ancestors.map (place here) ++ here.tails.tail) (p.place here).tails := by
  induction p using parent_induction with
  | h p ih =>
    rw [ancestors_eq, List.map_cons, List.cons_append]
    cases hparent : p.parent? with
    | none =>
      have hplace : p.place here = here := by
        rw [place_of_parent?_eq_none here hparent, origin, hrelative]
        rfl
      have htails : here.tails = here :: here.tails.tail := by cases here <;> rfl
      rw [hplace, htails]
      exact fun γ g => rfl
    | some q =>
      have hqRelative : q.isAbsolute = false := by rw [isAbsolute_parent? hparent, hrelative]
      have hqUp := parent_not_mem_parent? hup hparent
      obtain ⟨name, hplace⟩ | ⟨-, hplace⟩ := place_parent?_cases here hup hparent
      · rw [hplace]
        exact (ih q hparent hqRelative hqUp).cons _
      · -- The dot is at the place of the empty path above it.
        rw [hplace]
        refine .trans ?_ (ih q hparent hqRelative hqUp)
        rw [Option.elim_some, ancestors_eq q, List.map_cons, List.cons_append]
        exact .twice _ _

/-- A relative path that does not go up names no place above `here`. -/
theorem place_not_mem_above (hrelative : p.isAbsolute = false) (hup : .parent ∉ p.components) :
    p.place here ∉ here.tails.tail := by
  have hwithin : here <:+ p.place here := by
    rw [place_eq here hup, origin, hrelative]
    exact List.suffix_append _ _
  intro habove
  cases here with
  | nil => cases habove
  | cons name outer =>
    have houter : p.place (name :: outer) <:+ outer := (List.mem_tails _ _).1 habove
    have hlength := (hwithin.trans houter).length_le
    rw [List.length_cons] at hlength
    omega

/-! ## Joins that do not go up -/

/-- Without steps up in either part there are none in the joined path. -/
theorem parent_not_mem_join {dir : Path} (hdir : .parent ∉ dir.components)
    (hrelative : p.isAbsolute = false) (hup : .parent ∉ p.components) :
    .parent ∉ (dir.join p).components := by
  cases hempty : dir.isEmpty with
  | true => rwa [join_of_isEmpty hempty]
  | false =>
    rw [components_join hempty hrelative, List.mem_append, not_or]
    exact ⟨hdir, fun hmem => hup (List.mem_of_mem_filter hmem)⟩

/-- Joining paths that do not go up joins their places. -/
theorem place_join (here : List String) {dir : Path} (hdir : .parent ∉ dir.components)
    (hrelative : p.isAbsolute = false) (hup : .parent ∉ p.components) :
    (dir.join p).place here = p.place (dir.place here) := by
  have horigin : p.origin (dir.place here) = dir.place here := by
    rw [origin, hrelative]
    rfl
  have hjoin : (dir.join p).origin here = dir.origin here := by
    rw [origin, origin, isAbsolute_join_eq dir hrelative]
  rw [place_eq here (parent_not_mem_join hdir hrelative hup), names_join dir hrelative,
    hjoin, place_eq _ hup, horigin, place_eq here hdir, List.reverse_append,
    List.append_assoc]

end Path

namespace Disk

variable {d : Disk} {whole q r : Path}

/-- Whether an absolute path leads to the working directory without going up. -/
structure IsHere (d : Disk) (whole : Path) : Prop where
  absolute : whole.isAbsolute = true
  up : .parent ∉ whole.components
  names : whole.names = d.cwd
  directory : d.isDirectory whole = true

namespace IsHere

theorem place_eq (h : d.IsHere whole) : whole.place d.here = d.here := by
  rw [Path.place_eq d.here h.up, h.names, Path.origin, if_pos h.absolute, List.append_nil]
  rfl

theorem isName (h : d.IsHere whole) {name : String} (hname : name ∈ d.here) :
    Path.IsName name := by
  rw [← h.place_eq, Path.place_of_isAbsolute d.here h.absolute] at hname
  exact Path.isName_of_mem_place_top hname

/-- The names of the working directory lead there from the top. -/
theorem walk_here (h : d.IsHere whole) : d.tree.walk [] d.here.reverse = .ok d.here := by
  obtain ⟨hwalk, -⟩ := leadsIn_of_isDirectory h.directory
  rw [h.place_eq, Path.origin, if_pos h.absolute, Path.moves_eq_names h.up, h.names] at hwalk
  rw [here, List.reverse_reverse]
  exact hwalk

/-- What does not go up has the entries of its place. -/
theorem sameEntries (h : d.IsHere whole) (hup : .parent ∉ q.components) :
    d.SameEntries q (.ofPlace (q.place d.here)) := by
  refine sameEntries_of_names hup ?_ fun name hname =>
    Path.isName_of_mem_place (fun other => h.isName) hname
  unfold Path.origin
  split
  · rfl
  · exact h.walk_here

/-- The directories above the working directory are at the places above it. -/
theorem map_place_above (h : d.IsHere whole) :
    whole.ancestors.tail.map (Path.place d.here) = d.here.tails.tail := by
  rw [List.map_tail, Path.map_place_ancestors h.absolute h.up, h.place_eq]

end IsHere

/-! ## The repository -/

/-- Directories with the same entries are both repositories or neither is. -/
theorem isRepository_of_sameEntries (h : d.SameEntries q r) :
    d.isRepository q = d.isRepository r := by
  have hnames : ∀ name ∈ repositoryMarks, Path.IsName name := by decide
  rw [Bool.eq_iff_iff, isRepository, isRepository, List.any_eq_true, List.any_eq_true]
  refine exists_congr fun name => and_congr_right fun hname => ?_
  rw [pathExists, pathExists, node?, node?, h name (hnames name hname)]

/-- Whether a place is marked as a repository. -/
def isMarked (d : Disk) (place : List String) : Bool := d.isRepository (.ofPlace place)

/-- A directory is marked as a repository exactly if its place is. -/
theorem IsHere.isMarked_place (h : d.IsHere whole) (hup : .parent ∉ q.components) :
    d.isMarked (q.place d.here) = d.isRepository q :=
  (isRepository_of_sameEntries (h.sameEntries hup)).symm

/-- The repository is at the first marked place on the way up, or at the place of the start. -/
theorem IsHere.place_repositoryRoot (h : d.IsHere whole) (hup : .parent ∉ q.components) :
    (d.repositoryRoot q).place d.here =
      ((q.ancestors.map (Path.place d.here)).find? d.isMarked).getD (q.place d.here) := by
  have hmarked : q.ancestors.find? d.isRepository =
      q.ancestors.find? (d.isMarked ∘ Path.place d.here) :=
    List.find?_congr fun directory hdirectory =>
      (h.isMarked_place (Path.parent_not_mem_of_mem_ancestors hup hdirectory)).symm
  rw [repositoryRoot, List.find?_map, ← hmarked]
  cases q.ancestors.find? d.isRepository <;> rfl

/-- Two starts at one place, one relative and one absolute, find the same repository unless only a
directory above the working directory is marked. -/
theorem IsHere.place_repositoryRoot_eq_iff (h : d.IsHere whole) (hq : q.isAbsolute = false)
    (hqUp : .parent ∉ q.components) (hr : r.isAbsolute = true) (hrUp : .parent ∉ r.components)
    (hplace : r.place d.here = q.place d.here) :
    (d.repositoryRoot q).place d.here = (d.repositoryRoot r).place d.here ↔
      (∃ directory ∈ q.ancestors, d.isRepository directory = true) ∨
        ∀ directory ∈ whole.ancestors.tail, d.isRepository directory = false := by
  have hfound : (∃ directory ∈ q.ancestors, d.isRepository directory = true) ↔
      ((q.ancestors.map (Path.place d.here)).find? d.isMarked).isSome = true := by
    simp only [List.find?_isSome, List.mem_map, exists_exists_and_eq_and]
    refine exists_congr fun directory => and_congr_right fun hdirectory => ?_
    rw [h.isMarked_place (Path.parent_not_mem_of_mem_ancestors hqUp hdirectory)]
  have habove : (∀ directory ∈ whole.ancestors.tail, d.isRepository directory = false) ↔
      d.here.tails.tail.find? d.isMarked = none := by
    rw [List.find?_eq_none, ← h.map_place_above, List.forall_mem_map]
    refine forall₂_congr fun directory hdirectory => ?_
    have hmem : directory ∈ whole.ancestors := List.mem_of_mem_tail hdirectory
    rw [h.isMarked_place (Path.parent_not_mem_of_mem_ancestors h.up hmem), Bool.not_eq_true]
  have hwhole : (r.ancestors.map (Path.place d.here)).find? d.isMarked =
      ((q.ancestors.map (Path.place d.here)).find? d.isMarked).or
        (d.here.tails.tail.find? d.isMarked) := by
    rw [Path.map_place_ancestors hr hrUp, hplace, ← List.find?_append,
      (Path.sameFirst_ancestors hq hqUp d.here).find?]
  rw [h.place_repositoryRoot hqUp, h.place_repositoryRoot hrUp, hwhole, hplace, hfound, habove]
  cases hinner : (q.ancestors.map (Path.place d.here)).find? d.isMarked with
  | some place => simp
  | none =>
    cases houter : d.here.tails.tail.find? d.isMarked with
    | none => simp
    | some place =>
      have habove : place ∈ d.here.tails.tail := List.mem_of_find?_eq_some houter
      have hne : q.place d.here ≠ place := by
        rintro rfl
        exact Path.place_not_mem_above hq hqUp habove
      simpa using hne

/-! ## The rules -/

/-- The layer of linter configuration at a place, if there is one. -/
def layerAt? (d : Disk) (place : List String) : Option (Option LintConfig) :=
  d.lintLayer? (.ofPlace place)

/-- What is loaded for paths without steps up is what is loaded at their places. -/
theorem IsHere.filterMap_lintLayer? (h : d.IsHere whole) {directories : List Path}
    (hup : ∀ directory ∈ directories, .parent ∉ directory.components) :
    directories.filterMap d.lintLayer? =
      (directories.map (Path.place d.here)).filterMap d.layerAt? := by
  rw [List.filterMap_map]
  exact List.filterMap_congr fun directory hdirectory =>
    lintLayer?_congr (h.sameEntries (hup directory hdirectory))

/-- From an absolute start the search comes to what it comes to from the relative start at the same
place and, after that, to what lies above the working directory. -/
theorem IsHere.rulesFrom?_ancestors (h : d.IsHere whole) (hq : q.isAbsolute = false)
    (hqUp : .parent ∉ q.components) (hr : r.isAbsolute = true) (hrUp : .parent ∉ r.components)
    (hplace : r.place d.here = q.place d.here) :
    rulesFrom? (r.ancestors.filterMap d.lintLayer?) =
      rulesFrom? ((q.ancestors ++ whole.ancestors.tail).filterMap d.lintLayer?) := by
  have hqAll : ∀ directory ∈ q.ancestors ++ whole.ancestors.tail,
      .parent ∉ directory.components := by
    intro directory hdirectory
    rcases List.mem_append.1 hdirectory with hinner | houter
    · exact Path.parent_not_mem_of_mem_ancestors hqUp hinner
    · exact Path.parent_not_mem_of_mem_ancestors h.up (List.mem_of_mem_tail houter)
  have hrAll : ∀ directory ∈ r.ancestors, .parent ∉ directory.components :=
    fun directory => Path.parent_not_mem_of_mem_ancestors hrUp
  have hsame := (Path.sameFirst_ancestors hq hqUp d.here).filterMap d.layerAt?
  rw [h.filterMap_lintLayer? hrAll, h.filterMap_lintLayer? hqAll, List.map_append,
    h.map_place_above, Path.map_place_ancestors hr hrUp, hplace, rulesFrom?_congr hsame]

/-- A search ends at what cannot be loaded, and at a root. -/
theorem endsSearch_toOption {loaded : Except LookupFailure LintConfig}
    (h : ∀ config, loaded = .ok config → config.root = true) :
    endsSearch loaded.toOption = true := by
  cases loaded with
  | error failure => rfl
  | ok config => exact h config rfl

/-- What an absolute and a relative start for the same file have in common. -/
theorem IsHere.startDirectory_join (h : d.IsHere whole) {file : Path}
    (hr : r.isAbsolute = false) (hrUp : .parent ∉ r.components) (hfile : file.isAbsolute = false)
    (hfileUp : .parent ∉ file.components) (hname : file.fileName?.isSome = true) :
    let inner := startDirectory r (some file)
    let whole := startDirectory (whole.join r) (some file)
    inner.isAbsolute = false ∧ .parent ∉ inner.components ∧ whole.isAbsolute = true ∧
      .parent ∉ whole.components ∧ whole.place d.here = inner.place d.here := by
  intro inner outer
  obtain ⟨name, hname⟩ := Option.isSome_iff_exists.1 hname
  have hwholeUp := Path.parent_not_mem_join h.up hr hrUp
  have hinnerParent := parent?_join_of_fileName? (Path.fileName?_join r hfile hname)
  have houterParent := parent?_join_of_fileName? (Path.fileName?_join (whole.join r) hfile hname)
  have hplaces : ((whole.join r).join file).place d.here = (r.join file).place d.here := by
    rw [Path.place_join d.here hwholeUp hfile hfileUp, Path.place_join d.here h.up hr hrUp,
      h.place_eq, Path.place_join d.here hrUp hfile hfileUp]
  rw [Path.place_of_fileName? d.here (Path.fileName?_join (whole.join r) hfile hname) houterParent,
    Path.place_of_fileName? d.here (Path.fileName?_join r hfile hname) hinnerParent] at hplaces
  refine ⟨?_, ?_, ?_, ?_, (List.cons.inj hplaces).2⟩
  · rw [Path.isAbsolute_parent? hinnerParent, Path.isAbsolute_join_eq r hfile, hr]
  · exact Path.parent_not_mem_parent? (Path.parent_not_mem_join hrUp hfile hfileUp) hinnerParent
  · rw [Path.isAbsolute_parent? houterParent, Path.isAbsolute_join_eq _ hfile,
      Path.isAbsolute_join_eq whole hr, h.absolute]
  · exact Path.parent_not_mem_parent? (Path.parent_not_mem_join hwholeUp hfile hfileUp)
      houterParent

/-- A relative start and the absolute start for the same place in the working directory. They find
the same repository, unless one is marked above the working directory only. For a file that is given
by names the absolute start comes to the rules of the relative one with those from above the working
directory below them; these are the same rules if the relative search ends by itself, or if there is
no linter configuration above. A place stands for what is there: whatever does not go up has the
entries of its place. -/
theorem agree_from_relative_start (d : Disk) (whole r : Path) (h : d.IsHere whole)
    (hr : r.isAbsolute = false) (hup : .parent ∉ r.components) :
    let above := whole.ancestors.tail
    (∀ q : Path, .parent ∉ q.components → d.SameEntries q (.ofPlace (q.place d.here))) ∧
    ((d.repositoryRoot r).place d.here = (d.repositoryRoot (whole.join r)).place d.here ↔
      (∃ directory ∈ r.ancestors, d.isRepository directory = true) ∨
        ∀ directory ∈ above, d.isRepository directory = false) ∧
    ∀ file : Path, file.isAbsolute = false → .parent ∉ file.components →
      file.fileName?.isSome = true →
      d.rulesAround (whole.join r) (some file) =
        rulesFrom? ((searchedDirectories r (some file) ++ above).filterMap d.lintLayer?) ∧
      ((∃ directory ∈ searchedDirectories r (some file), ∃ path,
          d.firstFile? lintFileNames directory = some path ∧
          ∀ config, d.loadLintConfig path = .ok config → config.root = true) ∨
        (∀ directory ∈ above, d.hasFile lintFileNames directory = false) →
        d.rulesAround r (some file) = d.rulesAround (whole.join r) (some file)) := by
  intro above
  refine ⟨fun q => h.sameEntries, ?_, ?_⟩
  · have hplace : (whole.join r).place d.here = r.place d.here := by
      rw [Path.place_join d.here h.up hr hup, h.place_eq]
    have hwhole : (whole.join r).isAbsolute = true := by
      rw [Path.isAbsolute_join_eq whole hr, h.absolute]
    exact h.place_repositoryRoot_eq_iff hr hup hwhole (Path.parent_not_mem_join h.up hr hup) hplace
  · intro file hfile hfileUp hname
    obtain ⟨hinner, hinnerUp, hwhole, hwholeUp, hplace⟩ :=
      h.startDirectory_join hr hup hfile hfileUp hname
    have hrules : d.rulesAround (whole.join r) (some file) =
        rulesFrom? ((searchedDirectories r (some file) ++ above).filterMap d.lintLayer?) := by
      rw [rulesAround_eq]
      exact h.rulesFrom?_ancestors hinner hinnerUp hwhole hwholeUp hplace
    refine ⟨hrules, ?_⟩
    rw [hrules, rulesAround_eq, List.filterMap_append]
    rintro (⟨directory, hdirectory, path, hfirst, hroot⟩ | hnone)
    · have hends : ∃ layer ∈ (searchedDirectories r (some file)).filterMap d.lintLayer?,
          endsSearch layer = true :=
        ⟨_, List.mem_filterMap.2 ⟨directory, hdirectory, lintLayer?_of_some hfirst⟩,
          endsSearch_toOption hroot⟩
      rw [rulesFrom?, rulesFrom?, untilRoot_append hends]
    · have habove : above.filterMap d.lintLayer? = [] := by
        refine List.filterMap_eq_nil_iff.2 fun directory hdirectory => ?_
        exact lintLayer?_of_none (firstFile?_eq_none_iff.2 (hnone directory hdirectory))
      rw [habove, List.append_nil]

/-- A disk with a repository at the top and another one further down, seen from between. -/
def nested : Disk where
  tree := .directory [(".git", .emptyDirectory),
    (".eslintrc.json", .file (some "\x7b\"rules\":\x7b\"semi\":2\x7d\x7d")),
    ("sub", .directory [
      ("own", .directory [(".git", .emptyDirectory),
        (".eslintrc.json", .file (some "\x7b\"root\":true,\"rules\":\x7b\"quotes\":1\x7d\x7d"))])])]
  cwd := ["sub"]

/-- The repository below the working directory, with a configuration that is the root. -/
theorem agree_from_own :
    let whole : Path := ⟨"", ["sub"]⟩
    let r : Path := ⟨"own", []⟩
    let file : Path := ⟨"x.js", []⟩
    (nested.repositoryRoot r).place nested.here = ["own", "sub"] ∧
      (nested.repositoryRoot (whole.join r)).place nested.here = ["own", "sub"] ∧
      nested.rulesAround r (some file) = nested.rulesAround (whole.join r) (some file) := by
  intro whole r file
  have hhere : nested.IsHere whole :=
    ⟨by decide +kernel, by decide +kernel, by decide +kernel, by decide +kernel⟩
  obtain ⟨-, hroot, hrules⟩ := agree_from_relative_start nested whole r hhere (by decide +kernel)
    (by decide +kernel)
  have hrelative : (nested.repositoryRoot r).place nested.here = ["own", "sub"] := by decide +kernel
  have hmarked : nested.isRepository r = true := by decide +kernel
  have hown : r ∈ r.ancestors := by
    rw [Path.ancestors_eq]
    exact List.mem_cons_self
  refine ⟨hrelative, ?_, ?_⟩
  · rw [← hroot.2 (.inl ⟨r, hown, hmarked⟩)]
    exact hrelative
  · refine (hrules file (by decide +kernel) (by decide +kernel) (by decide +kernel)).2 (.inl ?_)
    refine ⟨r, by decide +kernel, ⟨"own", [".eslintrc.json"]⟩, by decide +kernel, ?_⟩
    intro config hconfig
    have hisRoot : nested.isRootConfig ⟨"own", [".eslintrc.json"]⟩ = true := by decide +kernel
    rw [isRootConfig, hconfig] at hisRoot
    exact hisRoot

/-- From the dot neither the repository nor the configuration above is found. -/
theorem disagree_from_dot :
    let whole : Path := ⟨"", ["sub"]⟩
    let r : Path := ⟨".", []⟩
    let file : Path := ⟨"x.js", []⟩
    nested.IsHere whole ∧ r.components = [.current] ∧ file.components = [.normal "x.js"] ∧
      nested.repositoryRoot r = r ∧ nested.repositoryRoot (whole.join r) = ⟨"", [""]⟩ ∧
      (nested.repositoryRoot r).place nested.here ≠
        (nested.repositoryRoot (whole.join r)).place nested.here ∧
      nested.rulesAround r (some file) ≠ nested.rulesAround (whole.join r) (some file) := by
  intro whole r file
  refine ⟨⟨by decide +kernel, by decide +kernel, by decide +kernel, by decide +kernel⟩,
    by decide +kernel, by decide +kernel, by decide +kernel, by decide +kernel,
    by decide +kernel, ?_⟩
  intro hsame
  have hsemi := congrArg (·.map fun rules => ((rules none).find? "semi").isSome) hsame
  revert hsemi
  decide +kernel

end Disk

end Concord
