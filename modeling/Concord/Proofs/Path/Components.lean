import Concord.Proofs.Path.Ancestors
import Mathlib.Data.List.Basic

/-!
# The components of paths made from paths

A parent has all components but the last one (`Path.components_parent?`), and a relative path that
is joined to another one adds its components to those of the other, the dot at its start apart
(`Path.components_join`). What a path leads to depends on its components alone wherever nothing goes
up, so that these are the laws from which everything about searches through directories follows.
-/

namespace Concord.Path

/-! ## Segments -/

theorem filterMap_component?_eq_nil {segments : List String}
    (h : ∀ segment ∈ segments, isVoid segment = true) : segments.filterMap component? = [] := by
  refine List.filterMap_eq_nil_iff.2 fun segment hsegment => ?_
  rw [component?, if_pos (h segment hsegment)]

/-- A segment that is not void stands for a component other than the root. -/
theorem component?_of_not_isVoid {segment : String} (h : ¬ isVoid segment) :
    ∃ c, component? segment = some c ∧ c ≠ .root := by
  rw [component?, if_neg h]
  split
  · exact ⟨.parent, rfl, nofun⟩
  · exact ⟨.normal segment, rfl, nofun⟩

theorem component?_ne_root (segment : String) : component? segment ≠ some .root := by
  unfold component?
  split
  · nofun
  · split <;> simp

/-- A dot inside a path stands for nothing. -/
theorem component?_ne_current (segment : String) : component? segment ≠ some .current := by
  unfold component?
  split
  · nofun
  · split <;> simp

/-- Void segments at the end add no components. -/
theorem filterMap_component?_reverse_dropWhile (segments : List String) :
    (segments.dropWhile isVoid).reverse.filterMap component? =
      segments.reverse.filterMap component? := by
  have hvoid : ∀ segment ∈ (segments.takeWhile isVoid).reverse, isVoid segment = true :=
    fun segment hsegment => List.mem_takeWhile_imp (List.mem_reverse.1 hsegment)
  have hsplit : segments.reverse =
      (segments.dropWhile isVoid).reverse ++ (segments.takeWhile isVoid).reverse := by
    rw [← List.reverse_append, List.takeWhile_append_dropWhile]
  rw [hsplit, List.filterMap_append, filterMap_component?_eq_nil hvoid, List.append_nil]

/-! ## The first component -/

theorem firstComponent?_of_isAbsolute {p : Path} (h : p.isAbsolute = true) :
    p.firstComponent? = some .root := by
  rw [firstComponent?, if_pos h]

/-- An absolute path starts at the root. -/
theorem components_of_isAbsolute {p : Path} (h : p.isAbsolute = true) :
    p.components = .root :: p.rest.filterMap component? := by
  rw [components, firstComponent?_of_isAbsolute h]
  rfl

/-- A path is absolute exactly if the root is one of its components. -/
theorem isAbsolute_iff {p : Path} : p.isAbsolute = true ↔ .root ∈ p.components := by
  constructor
  · intro h
    rw [components_of_isAbsolute h]
    exact List.mem_cons_self
  · intro h
    by_contra hrelative
    rw [components, List.mem_append, Option.mem_toList] at h
    rcases h with hfirst | hrest
    · rw [firstComponent?, if_neg hrelative] at hfirst
      split at hfirst
      · cases hfirst
      · exact component?_ne_root _ hfirst
    · obtain ⟨segment, -, hsegment⟩ := List.mem_filterMap.1 hrest
      exact component?_ne_root _ hsegment

/-- Whether a path is absolute can be told from its components. -/
theorem isAbsolute_congr {p q : Path} (h : p.components = q.components) :
    p.isAbsolute = q.isAbsolute := by
  rw [Bool.eq_iff_iff, isAbsolute_iff, isAbsolute_iff, h]

theorem isAbsolute_name (name : String) : isAbsolute ⟨name, []⟩ = false := by simp [isAbsolute]

theorem isEmpty_of_isAbsolute {p : Path} (h : p.isAbsolute = true) : p.isEmpty = false := by
  simp only [isAbsolute, Bool.and_eq_true, Bool.not_eq_true'] at h
  rw [isEmpty, h.2, Bool.and_false]

/-- A path that does not start with a slash does not start at the root. -/
theorem firstComponent?_of_first_ne {p : Path} (h : p.first ≠ "") :
    ∃ c, p.firstComponent? = some c ∧ c ≠ .root := by
  have hrelative : p.isAbsolute = false := by simp [isAbsolute, h]
  rw [firstComponent?, if_neg (by simp [hrelative])]
  by_cases hdot : p.first = "."
  · exact ⟨.current, by rw [if_pos hdot], nofun⟩
  · rw [if_neg hdot]
    exact component?_of_not_isVoid (by simp [isVoid, h, hdot])

/-- At the start of a path a dot stands for the directory itself. -/
theorem firstComponent?_of_dot {p : Path} (h : p.first = ".") :
    p.firstComponent? = some .current := by
  simp [firstComponent?, isAbsolute, h]

theorem firstComponent?_congr {p q : Path} (hfirst : p.first = q.first)
    (habsolute : p.isAbsolute = q.isAbsolute) : p.firstComponent? = q.firstComponent? := by
  rw [firstComponent?, firstComponent?, hfirst, habsolute]

/-! ## Parents -/

/-- What is above an absolute path is absolute, and what is above a relative one relative. -/
theorem isAbsolute_parent? {p q : Path} (h : p.parent? = some q) :
    q.isAbsolute = p.isAbsolute := by
  unfold parent? at h
  split at h
  · next segment above habove =>
    have hrest : p.rest ≠ [] := by
      intro hnil
      simp [hnil] at habove
    by_cases hfirst : p.first = ""
    · dsimp only at h
      split at h
      · cases h
        simp [isAbsolute, hfirst, hrest]
      · next hopen =>
        cases h
        simp only [hfirst, decide_true, Bool.true_and] at hopen
        simp [isAbsolute, hfirst, List.isEmpty_eq_false_iff.2 hrest, hopen]
    · simp only [hfirst, decide_false, Bool.false_and, Bool.false_eq_true, if_false,
        Option.some.injEq] at h
      subst h
      simp [isAbsolute, hfirst]
  · split at h
    · cases h
    · next hfirst =>
      cases h
      simp [isAbsolute, hfirst]

/-- A parent lacks the last component. -/
theorem components_parent? {p q : Path} (h : p.parent? = some q) :
    ∃ c, p.components = q.components ++ [c] ∧ c ≠ .root := by
  have habsolute := isAbsolute_parent? h
  unfold parent? at h
  split at h
  · next segment above habove =>
    have hsegment : ¬ isVoid segment := by
      have hhead := List.head?_dropWhile_not isVoid p.rest.reverse
      rw [habove] at hhead
      simpa using hhead
    obtain ⟨c, hc, hroot⟩ := component?_of_not_isVoid hsegment
    refine ⟨c, ?_, hroot⟩
    have hrest : p.rest.filterMap component? =
        (above.dropWhile isVoid).reverse.filterMap component? ++ [c] := by
      have hdropped := filterMap_component?_reverse_dropWhile p.rest.reverse
      rw [List.reverse_reverse, habove, List.reverse_cons, List.filterMap_append] at hdropped
      rw [← hdropped, filterMap_component?_reverse_dropWhile]
      simp [hc]
    dsimp only at h
    split at h
    · next htop =>
      -- Nothing but the top is left above.
      simp only [Bool.and_eq_true, decide_eq_true_eq, List.isEmpty_iff] at htop
      cases h
      rw [htop.2] at hrest
      rw [components, hrest, ← firstComponent?_congr htop.1.symm habsolute]
      rfl
    · cases h
      have hsame : firstComponent? ⟨p.first, (above.dropWhile isVoid).reverse⟩ =
          p.firstComponent? := firstComponent?_congr rfl habsolute
      rw [components, hrest, components, hsame, List.append_assoc]
  · next hvoid =>
    rw [List.dropWhile_eq_nil_iff] at hvoid
    split at h
    · cases h
    · next hfirst =>
      cases h
      obtain ⟨c, hc, hroot⟩ := firstComponent?_of_first_ne hfirst
      refine ⟨c, ?_, hroot⟩
      have hrest : p.rest.filterMap component? = [] :=
        filterMap_component?_eq_nil fun segment hsegment =>
          hvoid segment (List.mem_reverse.2 hsegment)
      rw [components, hrest, hc]
      rfl

/-- Only the top and paths without components have no parent. -/
theorem components_of_parent?_eq_none {p : Path} (h : p.parent? = none) :
    p.components = [] ∨ p.components = [.root] := by
  unfold parent? at h
  split at h
  · dsimp only at h
    split at h <;> cases h
  · next hvoid =>
    rw [List.dropWhile_eq_nil_iff] at hvoid
    split at h
    · next hfirst =>
      have hrest : p.rest.filterMap component? = [] :=
        filterMap_component?_eq_nil fun segment hsegment =>
          hvoid segment (List.mem_reverse.2 hsegment)
      rw [components, hrest]
      cases habsolute : p.isAbsolute with
      | true =>
        right
        rw [firstComponent?_of_isAbsolute habsolute]
        rfl
      | false =>
        left
        simp [firstComponent?, habsolute, hfirst, component?, isVoid]
    · cases h

/-! ## Joins -/

/-- The segments of a relative path stand for its components, the dot at the start apart. -/
theorem filterMap_component?_segments {p : Path} (h : p.isAbsolute = false) :
    p.segments.filterMap component? = p.components.filter (· ≠ .current) := by
  have hrest : (p.rest.filterMap component?).filter (· ≠ .current) =
      p.rest.filterMap component? := by
    refine List.filter_eq_self.2 fun c hc => ?_
    obtain ⟨segment, -, hsegment⟩ := List.mem_filterMap.1 hc
    have hcurrent := component?_ne_current segment
    rw [hsegment] at hcurrent
    simpa using hcurrent
  rw [components, List.filter_append, hrest, segments, List.filterMap_cons]
  by_cases hdot : p.first = "."
  · rw [firstComponent?_of_dot hdot, hdot]
    rfl
  · have hsame : p.firstComponent? = component? p.first := by simp [firstComponent?, h, hdot]
    have hcurrent := component?_ne_current p.first
    rw [hsame]
    cases hfirst : component? p.first with
    | none => rfl
    | some c =>
      have hc : c ≠ .current := by
        rintro rfl
        exact hcurrent hfirst
      simp [hc]

/-- A join keeps the segments of both paths, up to an empty one at the end of the first path. -/
theorem exists_join_eq {dir p : Path} (hdir : dir.isEmpty = false) (hp : p.isAbsolute = false) :
    ∃ kept voids, dir.rest = kept ++ voids ∧ (∀ segment ∈ voids, isVoid segment = true) ∧
      dir.join p = ⟨dir.first, kept ++ p.segments⟩ := by
  have hrelative : (p.isAbsolute || dir.isEmpty) = false := by rw [hp, hdir]; rfl
  unfold join
  rw [if_neg (Bool.not_eq_true _ ▸ hrelative)]
  by_cases hlast : dir.rest.getLast? = some ""
  · obtain ⟨kept, hkept⟩ := List.getLast?_eq_some_iff.1 hlast
    refine ⟨kept, [""], hkept, by simp [isVoid], ?_⟩
    rw [if_pos hlast, hkept, List.dropLast_concat]
  · exact ⟨dir.rest, [], by simp, by simp, by rw [if_neg hlast]⟩

/-- A relative path that is joined to a directory is absolute if the directory is. -/
theorem isAbsolute_join {dir p : Path} (hdir : dir.isEmpty = false)
    (hp : p.isAbsolute = false) : (dir.join p).isAbsolute = dir.isAbsolute := by
  obtain ⟨kept, voids, -, -, hjoin⟩ := exists_join_eq hdir hp
  rw [hjoin]
  by_cases hfirst : dir.first = ""
  · have hrest : dir.rest.isEmpty = false := by simpa [isEmpty, hfirst] using hdir
    simp [isAbsolute, segments, hfirst, hrest]
  · simp [isAbsolute, hfirst]

/-- A join has the components of both paths, a dot at the start of the second one apart. -/
theorem components_join {dir p : Path} (hdir : dir.isEmpty = false) (hp : p.isAbsolute = false) :
    (dir.join p).components = dir.components ++ p.components.filter (· ≠ .current) := by
  have habsolute := isAbsolute_join hdir hp
  obtain ⟨kept, voids, hrest, hvoids, hjoin⟩ := exists_join_eq hdir hp
  have hkept : dir.rest.filterMap component? = kept.filterMap component? := by
    rw [hrest, List.filterMap_append, filterMap_component?_eq_nil hvoids, List.append_nil]
  have hfirst : (dir.join p).firstComponent? = dir.firstComponent? :=
    firstComponent?_congr (by rw [hjoin]) habsolute
  rw [components, hfirst, hjoin, components, hkept, ← filterMap_component?_segments hp,
    List.filterMap_append, List.append_assoc]

theorem components_of_isEmpty {p : Path} (h : p.isEmpty = true) : p.components = [] := by
  simp only [isEmpty, Bool.and_eq_true, decide_eq_true_eq, List.isEmpty_iff] at h
  simp [components, firstComponent?, isAbsolute, h, component?, isVoid]

theorem join_of_isEmpty {dir : Path} (h : dir.isEmpty = true) (p : Path) : dir.join p = p := by
  unfold join
  rw [h]
  simp

/-- An absolute path leads to the same file from everywhere. -/
theorem join_of_isAbsolute (dir : Path) {p : Path} (h : p.isAbsolute = true) : dir.join p = p := by
  unfold join
  rw [h]
  simp

/-- What a relative path is joined to decides whether the join is absolute. -/
theorem isAbsolute_join_eq (dir : Path) {p : Path} (hp : p.isAbsolute = false) :
    (dir.join p).isAbsolute = dir.isAbsolute := by
  cases hdir : dir.isEmpty with
  | true =>
    simp only [isEmpty, Bool.and_eq_true] at hdir
    rw [join_of_isEmpty (by rw [isEmpty, hdir.1, hdir.2]; rfl), hp, isAbsolute, hdir.2]
    simp
  | false => exact isAbsolute_join hdir hp

/-! ## Names -/

/-- The names in a joined path are those in the directory, followed by those in the path. -/
theorem names_join (dir : Path) {p : Path} (hp : p.isAbsolute = false) :
    (dir.join p).names = dir.names ++ p.names := by
  unfold names
  cases hdir : dir.isEmpty with
  | true => rw [join_of_isEmpty hdir, components_of_isEmpty hdir, List.filterMap_nil,
      List.nil_append]
  | false =>
    rw [components_join hdir hp, List.filterMap_append, List.filterMap_filter]
    congr 1
    refine List.filterMap_congr fun c _ => ?_
    cases c <;> rfl

/-- The name of a file is the last component of its path. -/
theorem fileName?_eq_some_iff {p : Path} {name : String} :
    p.fileName? = some name ↔ ∃ above, p.components = above ++ [.normal name] := by
  unfold fileName?
  rw [Option.bind_eq_some_iff]
  constructor
  · rintro ⟨c, hlast, hname⟩
    obtain ⟨above, habove⟩ := List.getLast?_eq_some_iff.1 hlast
    cases c with
    | normal found =>
      obtain rfl : found = name := Option.some.inj hname
      exact ⟨above, habove⟩
    | root => cases hname
    | current => cases hname
    | parent => cases hname
  · rintro ⟨above, habove⟩
    exact ⟨.normal name, by rw [habove, List.getLast?_concat], rfl⟩

/-- The name of an entry is the last of the names on the way to it. -/
theorem fileName?_eq_getLast?_names {p : Path} (h : p.fileName?.isSome = true) :
    p.fileName? = p.names.getLast? := by
  obtain ⟨name, hname⟩ := Option.isSome_iff_exists.1 h
  obtain ⟨above, habove⟩ := fileName?_eq_some_iff.1 hname
  rw [hname, names, habove, List.filterMap_append]
  simp [Component.name?]

/-- Joining a path to a directory does not change the name of the file. -/
theorem fileName?_join (dir : Path) {p : Path} (hp : p.isAbsolute = false) {name : String}
    (hname : p.fileName? = some name) : (dir.join p).fileName? = some name := by
  cases hdir : dir.isEmpty with
  | true => rw [join_of_isEmpty hdir, hname]
  | false =>
    obtain ⟨above, habove⟩ := fileName?_eq_some_iff.1 hname
    refine fileName?_eq_some_iff.2 ⟨dir.components ++ above.filter (· ≠ .current), ?_⟩
    rw [components_join hdir hp, habove, List.filter_append, List.append_assoc]
    rfl

end Concord.Path
