import Concord.Proofs.Lookup.Rules

/-!
# Searches that start from other spellings

A path can be spelled in several ways that have the same components. A search for configuration goes
by the components of a file alone: it visits the same directories and finds the same there, whatever
the spelling (`Disk.goesByComponents_resolver`).
-/

namespace Concord

/-- That a resolver finds the same around files with the same components, or fails around both. -/
structure Resolver.GoesByComponents (resolver : Resolver) : Prop where
  lintConfig : ∀ p q : Path, p.components = q.components →
    (resolver.lintConfig (some p)).toOption = (resolver.lintConfig (some q)).toOption
  formatOptions : ∀ p q : Path, p.components = q.components →
    (resolver.formatOptions (some p)).toOption = (resolver.formatOptions (some q)).toOption

namespace Path

variable {p q : Path} {β : Type} {f : Path → β}

/-- Another spelling of a path is another spelling of the joined path. -/
theorem join_congr (dir : Path) (h : p.components = q.components) :
    (dir.join p).components = (dir.join q).components := by
  have habsolute := isAbsolute_congr h
  cases hp : p.isAbsolute with
  | true => rw [join_of_isAbsolute dir hp, join_of_isAbsolute dir (habsolute ▸ hp), h]
  | false =>
    cases hdir : dir.isEmpty with
    | true => rw [join_of_isEmpty hdir, join_of_isEmpty hdir, h]
    | false => rw [components_join hdir hp, components_join hdir (habsolute ▸ hp), h]

/-- Another spelling of a path has the same directory above it, spelled in one way or the other. -/
theorem parent?_congr (h : p.components = q.components) :
    p.parent?.map components = q.parent?.map components := by
  have hnone : ∀ {a b c : Path}, a.components = b.components → a.parent? = none →
      b.parent? = some c → False := by
    intro a b c hab ha hb
    obtain ⟨last, hlast, hroot⟩ := components_parent? hb
    rw [← hab] at hlast
    rcases components_of_parent?_eq_none ha with hnil | htop
    · simp [hnil] at hlast
    · rw [htop, ← List.nil_append [Component.root]] at hlast
      exact hroot (List.append_singleton_inj.1 hlast).2.symm
  cases hp : p.parent? with
  | none =>
    cases hq : q.parent? with
    | none => rfl
    | some b => exact (hnone h hp hq).elim
  | some a =>
    cases hq : q.parent? with
    | none => exact (hnone h.symm hq hp).elim
    | some b =>
      obtain ⟨last, hlast, -⟩ := components_parent? hp
      obtain ⟨other, hother, -⟩ := components_parent? hq
      rw [hlast, hother] at h
      rw [Option.map_some, Option.map_some, (List.append_singleton_inj.1 h).1]

/-- The directories above a path are the same for its spellings, one by one. -/
theorem map_ancestors_congr (hf : ∀ a b : Path, a.components = b.components → f a = f b)
    (h : p.components = q.components) : p.ancestors.map f = q.ancestors.map f := by
  induction p using parent_induction generalizing q with
  | h p ih =>
    have hparents := parent?_congr h
    rw [ancestors_eq, ancestors_eq q, List.map_cons, List.map_cons, hf p q h]
    cases hp : p.parent? with
    | none =>
      rw [hp, Option.map_none, eq_comm, Option.map_eq_none_iff] at hparents
      rw [hparents]
    | some a =>
      rw [hp, Option.map_some, eq_comm, Option.map_eq_some_iff] at hparents
      obtain ⟨b, hq, hab⟩ := hparents
      rw [hq, Option.elim_some, Option.elim_some, ih a hp hab.symm]

/-- The directories that are searched are the same for the spellings of a file. -/
theorem map_searchedDirectories_congr (base : Path)
    (hf : ∀ a b : Path, a.components = b.components → f a = f b)
    (h : p.components = q.components) :
    (searchedDirectories base (some p)).map f = (searchedDirectories base (some q)).map f := by
  have hstart : (startDirectory base (some p)).components =
      (startDirectory base (some q)).components := by
    have hparents := parent?_congr (join_congr base h)
    rw [startDirectory, startDirectory, ← Option.getD_map components, hparents, Option.getD_map]
  exact map_ancestors_congr hf hstart

end Path

namespace Disk

variable {d : Disk} {q r : Path}

/-- Two spellings of a directory have the same entries. -/
theorem sameEntries_of_components (h : q.components = r.components) : d.SameEntries q r := by
  intro name hname
  have horigin : q.origin d.here = r.origin d.here := by
    rw [Path.origin, Path.origin, Path.isAbsolute_congr h]
  rw [locate_entry d q hname, locate_entry d r hname, horigin, Path.moves_eq, Path.moves_eq, h]

/-- What is found on a disk around a file depends on the components of its path alone. -/
theorem goesByComponents_resolver (d : Disk) (base : Path) :
    (d.resolver base).GoesByComponents where
  lintConfig p q h := by
    have hlook : ∀ a b : Path, a.components = b.components → d.lintLayer? a = d.lintLayer? b :=
      fun a b hab => lintLayer?_congr (sameEntries_of_components hab)
    have hlayers := Path.map_searchedDirectories_congr base hlook h
    have hvisited := congrArg (List.filterMap id) hlayers
    rw [List.filterMap_map, List.filterMap_map, Function.id_comp] at hvisited
    have hp := toOption_lintConfigAround d base (some p)
    rw [hvisited, ← toOption_lintConfigAround] at hp
    exact hp
  formatOptions p q h := by
    have hlook : ∀ a b : Path, a.components = b.components →
        d.firstDocument? formatFileNames FormatOptions.decode a =
          d.firstDocument? formatFileNames FormatOptions.decode b :=
      fun a b hab => firstDocument?_congr (sameEntries_of_components hab) (by decide)
    have hdocuments := Path.map_searchedDirectories_congr base hlook h
    have hnearest := congrArg (List.findSome? id) hdocuments
    rw [List.findSome?_map, List.findSome?_map, Function.id_comp] at hnearest
    have hp := toOption_formatOptionsAround d base (some p)
    rw [hnearest, ← toOption_formatOptionsAround] at hp
    exact hp

end Disk

end Concord
