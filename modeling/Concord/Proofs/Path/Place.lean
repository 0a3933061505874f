import Concord.Proofs.Path.Components
import Mathlib.Data.List.Infix

/-!
# Places that paths name

A path names a place by its components, each of which moves one step on: to an entry, back to the
directory above, or nowhere. The places of a path and of the paths above it, innermost first, form a
trail (`Path.trail_ancestors`). A trail may leave a directory and come back, but on its way out of a
directory it goes through all that lie around it, so that a search for the first hit along the trail
finds what the search straight upwards finds, unless something aside is hit first
(`Trail.findSome?_eq`).
-/

namespace Concord

/-- Where a component leads from a place, places being lists of names from the top with the last
name first. -/
def Component.enter (place : List String) : Component → List String
  | .root => []
  | .current => place
  | .parent => place.tail
  | .normal name => name :: place

/-! ## Trails -/

/-- The place after a step is the one before it, one within or the one around it. -/
inductive Step (place : List String) : List String → Prop where
  | stay : Step place place
  | goIn (name : String) : Step place (name :: place)
  | goOut : Step place place.tail

/-- Places, the last one first, each of which is one step from the one after it; the trail starts at
`origin`. -/
inductive Trail (origin : List String) : List (List String) → Prop where
  | start : Trail origin [origin]
  | step {next place : List String} {before : List (List String)} (h : Step place next)
      (htrail : Trail origin (place :: before)) : Trail origin (next :: place :: before)

/-- Only a step into a place leads there from outside. -/
theorem Step.eq_of_enters {place next outer : List String} (h : Step place next)
    (hnext : outer <:+ next) (hplace : ¬ outer <:+ place) :
    ∃ name, outer = name :: place ∧ next = outer := by
  cases h with
  | stay => exact absurd hnext hplace
  | goIn name =>
    rcases List.suffix_cons_iff.1 hnext with rfl | hinner
    · exact ⟨name, rfl, rfl⟩
    · exact absurd hinner hplace
  | goOut => exact absurd (hnext.trans (List.tail_suffix place)) hplace

/-- Of what lies around a target, all that is within a place is within the next one on the way. -/
theorem cons_suffix_of_ne {name : String} {outer other target : List String}
    (htarget : name :: outer <:+ target) (haround : other <:+ target) (houter : outer <:+ other)
    (hne : other ≠ outer) : name :: outer <:+ other := by
  rcases List.suffix_or_suffix_of_suffix htarget haround with hinner | hbelow
  · exact hinner
  · rcases List.suffix_cons_iff.1 hbelow with rfl | hwithin
    · exact List.suffix_refl _
    · exact absurd (hwithin.eq_of_length_le houter.length_le) hne

/-- Along a trail from the top, the search for something that is only hit around `target` comes to
the same as the search straight upwards. The trail has come as far as `place`, and all that lies
around `target` but not around `outer` has been passed without a hit. -/
theorem Trail.findSome?_eq {β : Type} {f : List String → Option β} {target : List String}
    (hf : ∀ place, ¬ place <:+ target → f place = none) {place outer : List String}
    {before : List (List String)} (htrail : Trail [] (place :: before)) (hplace : outer <:+ place)
    (htarget : outer <:+ target)
    (hpassed : ∀ other, outer <:+ other → other <:+ target → other ≠ outer → f other = none) :
    (place :: before).findSome? f = outer.tails.findSome? f := by
  induction before generalizing place outer with
  | nil =>
    cases htrail
    obtain rfl : outer = [] := List.suffix_nil.1 hplace
    rfl
  | cons earlier before ih =>
    cases htrail with
    | step hstep htrail =>
      cases hhit : f place with
      | some b =>
        -- A hit is around the target, and what has been passed is no hit.
        have haround : place <:+ target := by
          by_contra haside
          rw [hf place haside] at hhit
          cases hhit
        obtain rfl : place = outer := by
          by_contra hne
          rw [hpassed place hplace haround hne] at hhit
          cases hhit
        cases place <;> simp [hhit]
      | none =>
        have hskip : (place :: earlier :: before).findSome? f =
            (earlier :: before).findSome? f := by
          rw [List.findSome?_cons, hhit]
        rw [hskip]
        by_cases hinside : outer <:+ earlier
        · exact ih htrail hinside htarget hpassed
        · -- Seen backwards, the trail leaves `outer` here, where nothing is hit.
          obtain ⟨name, rfl, rfl⟩ := hstep.eq_of_enters hplace hinside
          have hleave : (name :: earlier).tails.findSome? f = earlier.tails.findSome? f := by
            rw [List.tails_cons, List.findSome?_cons, hhit]
          have haround : earlier <:+ target := (List.suffix_cons name earlier).trans htarget
          rw [hleave]
          refine ih htrail (List.suffix_refl earlier) haround fun other hwithin hother hne => ?_
          by_cases hsame : other = name :: earlier
          · rw [hsame, hhit]
          · have hinner := cons_suffix_of_ne htarget hother hwithin hne
            exact hpassed other hinner hother hsame

namespace Path

/-! ## Places of paths -/

/-- Where a path leads from, for someone who is at `here`. -/
def origin (here : List String) (p : Path) : List String := if p.isAbsolute then [] else here

/-- The place that a path names, for someone who is at `here`. -/
def place (here : List String) (p : Path) : List String := p.components.foldl Component.enter here

variable {here : List String} {p q start : Path}

/-- Entering a component is a step, unless the component is the root. -/
theorem step_enter (place : List String) {c : Component} (hc : c ≠ .root) :
    Step place (c.enter place) := by
  cases c with
  | root => exact absurd rfl hc
  | current => exact .stay
  | parent => exact .goOut
  | normal name => exact .goIn name

/-- A path and the one above it start in the same place. -/
theorem origin_parent? (here : List String) (h : p.parent? = some q) :
    q.origin here = p.origin here := by
  rw [origin, origin, isAbsolute_parent? h]

/-- The place of a path is one component further than that of the path above it. -/
theorem place_parent? (here : List String) (h : p.parent? = some q) :
    ∃ c, p.components = q.components ++ [c] ∧ c ≠ .root ∧
      p.place here = c.enter (q.place here) := by
  obtain ⟨c, hcomponents, hc⟩ := components_parent? h
  refine ⟨c, hcomponents, hc, ?_⟩
  rw [place, hcomponents, List.foldl_append]
  rfl

/-- An absolute path has the same place from everywhere. -/
theorem place_of_isAbsolute (here : List String) (h : p.isAbsolute = true) :
    p.place here = p.place [] := by
  rw [place, place, components_of_isAbsolute h]
  rfl

/-- A path with nothing above it stays where it starts. -/
theorem place_of_parent?_eq_none (here : List String) (h : p.parent? = none) :
    p.place here = p.origin here := by
  rcases components_of_parent?_eq_none h with hnone | htop
  · have hrelative : ¬ p.isAbsolute = true := by simp [isAbsolute_iff, hnone]
    rw [place, hnone, origin, if_neg hrelative]
    rfl
  · have habsolute : p.isAbsolute = true := by simp [isAbsolute_iff, htop]
    rw [place, htop, origin, if_pos habsolute]
    rfl

/-- The place of a file is its name below the place of its directory. -/
theorem place_of_fileName? {name : String} (here : List String) (hname : p.fileName? = some name)
    (hparent : p.parent? = some start) : p.place here = name :: start.place here := by
  obtain ⟨above, habove⟩ := fileName?_eq_some_iff.1 hname
  obtain ⟨c, hcomponents, -, hplace⟩ := place_parent? here hparent
  obtain ⟨-, hc⟩ := List.append_inj' (habove.symm.trans hcomponents) rfl
  rw [hplace, ← (List.cons.inj hc).1]
  rfl

theorem exists_parent?_of_fileName? {name : String} (hname : p.fileName? = some name) :
    ∃ start, p.parent? = some start := by
  cases hparent : p.parent? with
  | some start => exact ⟨start, rfl⟩
  | none =>
    unfold fileName? at hname
    rcases components_of_parent?_eq_none hparent with hnone | htop
    · rw [hnone] at hname
      cases hname
    · rw [htop] at hname
      cases hname

/-- The places of a path and of the paths above it form a trail. -/
theorem trail_ancestors (here : List String) (p : Path) :
    Trail (p.origin here) (p.ancestors.map (place here)) := by
  induction p using parent_induction with
  | h p ih =>
    rw [ancestors_eq]
    cases hparent : p.parent? with
    | none =>
      have hplace := place_of_parent?_eq_none here hparent
      rw [Option.elim_none, List.map_singleton, hplace]
      exact .start
    | some q =>
      have habove := ih q hparent
      obtain ⟨c, -, hc, hplace⟩ := place_parent? here hparent
      rw [origin_parent? here hparent, ancestors_eq] at habove
      rw [Option.elim_some, ancestors_eq, List.map_cons, List.map_cons, hplace]
      exact .step (step_enter _ hc) habove

theorem isAbsolute_of_mem_ancestors (h : q ∈ p.ancestors) : q.isAbsolute = p.isAbsolute := by
  induction p using parent_induction with
  | h p ih =>
    rw [ancestors_eq] at h
    cases hparent : p.parent? with
    | none =>
      rw [hparent, Option.elim_none, List.mem_singleton] at h
      rw [h]
    | some above =>
      rw [hparent, Option.elim_some] at h
      rcases List.mem_cons.1 h with rfl | habove
      · rfl
      · rw [ih above hparent habove, isAbsolute_parent? hparent]

/-- The components of a path above are the first ones of the path. -/
theorem components_prefix_of_mem_ancestors (h : q ∈ p.ancestors) :
    q.components <+: p.components := by
  induction p using parent_induction with
  | h p ih =>
    rw [ancestors_eq] at h
    cases hparent : p.parent? with
    | none =>
      rw [hparent, Option.elim_none, List.mem_singleton] at h
      rw [h]
    | some above =>
      obtain ⟨c, hcomponents, -⟩ := components_parent? hparent
      rw [hparent, Option.elim_some] at h
      rcases List.mem_cons.1 h with rfl | habove
      · exact List.prefix_refl _
      · rw [hcomponents]
        exact (ih above hparent habove).trans (List.prefix_append _ _)

/-! ## Paths that do not go up -/

/-- Without steps up, entering components goes down by their names. -/
theorem foldl_enter_of_names {components : List Component} (hroot : .root ∉ components)
    (hparent : .parent ∉ components) (here : List String) :
    components.foldl Component.enter here =
      (components.filterMap Component.name?).reverse ++ here := by
  induction components generalizing here with
  | nil => rfl
  | cons c rest ih =>
    rw [List.mem_cons, not_or] at hroot hparent
    rw [List.foldl_cons, ih hroot.2 hparent.2]
    cases c with
    | root => exact absurd rfl hroot.1
    | parent => exact absurd rfl hparent.1
    | current => rfl
    | normal name => simp [Component.enter, Component.name?]

theorem filterMap_name?_map_normal (names : List String) :
    (names.map Component.normal).filterMap Component.name? = names := by
  rw [List.filterMap_map]
  exact List.filterMap_some

/-- A path that does not go up names the place that its names lead to. -/
theorem place_eq (here : List String) (h : .parent ∉ p.components) :
    p.place here = p.names.reverse ++ p.origin here := by
  unfold place names origin
  by_cases habsolute : p.isAbsolute = true
  · rw [components_of_isAbsolute habsolute] at h ⊢
    have hroot : .root ∉ p.rest.filterMap component? := by
      intro hroot
      obtain ⟨segment, -, hsegment⟩ := List.mem_filterMap.1 hroot
      exact component?_ne_root _ hsegment
    have hparent : .parent ∉ p.rest.filterMap component? := fun hparent =>
      h (List.mem_cons_of_mem _ hparent)
    rw [if_pos habsolute, List.foldl_cons, foldl_enter_of_names hroot hparent]
    rfl
  · have hroot : .root ∉ p.components := by rwa [← isAbsolute_iff]
    rw [if_neg habsolute, foldl_enter_of_names hroot h]

/-- No step up is added on the way up. -/
theorem parent_not_mem_parent? (h : .parent ∉ p.components) (hparent : p.parent? = some q) :
    .parent ∉ q.components := by
  obtain ⟨c, hcomponents, -⟩ := components_parent? hparent
  intro hmem
  refine h ?_
  rw [hcomponents]
  exact List.mem_append_left _ hmem

theorem parent_not_mem_of_mem_ancestors (h : .parent ∉ p.components) (hq : q ∈ p.ancestors) :
    .parent ∉ q.components := fun hparent =>
  h ((components_prefix_of_mem_ancestors hq).subset hparent)

/-- The names in a path above are the first ones of the path. -/
theorem names_prefix_of_mem_ancestors (hq : q ∈ p.ancestors) : q.names <+: p.names :=
  (components_prefix_of_mem_ancestors hq).filterMap _

/-- All directories above a path that does not go up lie around it. -/
theorem place_suffix_of_mem_ancestors (here : List String) (h : .parent ∉ p.components)
    (hq : q ∈ p.ancestors) : q.place here <:+ p.place here := by
  have horigin : q.origin here = p.origin here := by
    rw [origin, origin, isAbsolute_of_mem_ancestors hq]
  obtain ⟨more, hmore⟩ := names_prefix_of_mem_ancestors hq
  rw [place_eq here h, place_eq here (parent_not_mem_of_mem_ancestors h hq), horigin, ← hmore,
    List.reverse_append, List.append_assoc]
  exact List.suffix_append _ _

/-! ## Paths of places -/

/-- Whether a segment is the name of an entry. -/
def IsName (segment : String) : Prop := component? segment = some (.normal segment)

instance (segment : String) : Decidable (IsName segment) := inferInstanceAs (Decidable (_ = _))

/-- A component with a name is spelled as that name. -/
theorem eq_of_component?_eq_normal {segment name : String}
    (h : component? segment = some (.normal name)) : segment = name := by
  unfold component? at h
  split at h
  · cases h
  · split at h <;> simp_all

/-- A name among the components is a segment that stands for itself. -/
theorem mem_segments_of_mem_components {name : String} (h : .normal name ∈ p.components) :
    name ∈ p.segments ∧ IsName name := by
  have hsame : ∀ {segment : String}, segment ∈ p.segments →
      component? segment = some (.normal name) → name ∈ p.segments ∧ IsName name := by
    intro segment hmem hsegment
    obtain rfl := eq_of_component?_eq_normal hsegment
    exact ⟨hmem, hsegment⟩
  rw [components, List.mem_append, Option.mem_toList] at h
  rcases h with hfirst | hrest
  · unfold firstComponent? at hfirst
    split at hfirst
    · cases hfirst
    · split at hfirst
      · cases hfirst
      · exact hsame List.mem_cons_self hfirst
  · obtain ⟨segment, hmem, hsegment⟩ := List.mem_filterMap.1 hrest
    exact hsame (List.mem_cons_of_mem _ hmem) hsegment

theorem isName_of_mem_components {name : String} (h : .normal name ∈ p.components) :
    IsName name := (mem_segments_of_mem_components h).2

/-- A name in a place that is entered is one that is entered, or was there before. -/
theorem isName_of_mem_foldl_enter {components : List Component} {here : List String} {name : String}
    (h : name ∈ components.foldl Component.enter here) :
    .normal name ∈ components ∨ name ∈ here := by
  induction components generalizing here with
  | nil => exact .inr h
  | cons c rest ih =>
    rcases ih h with hrest | henter
    · exact .inl (List.mem_cons_of_mem _ hrest)
    · cases c with
      | root => cases henter
      | current => exact .inr henter
      | parent => exact .inr (List.mem_of_mem_tail henter)
      | normal other =>
        rcases List.mem_cons.1 henter with rfl | hhere
        · exact .inl List.mem_cons_self
        · exact .inr hhere

/-- A place has only names in it, if it starts from such a place. -/
theorem isName_of_mem_place {name : String} (hhere : ∀ other ∈ here, IsName other)
    (h : name ∈ p.place here) : IsName name := by
  rcases isName_of_mem_foldl_enter h with hcomponents | hmem
  · exact isName_of_mem_components hcomponents
  · exact hhere name hmem

theorem isName_of_mem_place_top {name : String} (h : name ∈ p.place []) : IsName name := by
  refine isName_of_mem_place (fun other hother => ?_) h
  cases hother

theorem isVoid_of_isName {name : String} (h : IsName name) : isVoid name = false := by
  by_contra hvoid
  rw [Bool.not_eq_false] at hvoid
  rw [IsName, component?, if_pos hvoid] at h
  cases h

/-- A name by itself is a path with one component. -/
theorem components_name {name : String} (h : IsName name) :
    components ⟨name, []⟩ = [.normal name] := by
  have hdot : name ≠ "." := by
    rintro rfl
    cases h
  have hfirst : firstComponent? ⟨name, []⟩ = some (.normal name) := by
    simp only [firstComponent?, isAbsolute, List.isEmpty_nil, Bool.not_true, Bool.and_false,
      Bool.false_eq_true, if_false, hdot]
    exact h
  rw [components, hfirst]
  rfl

/-- The absolute path that names a place without detours. -/
def ofPlace (place : List String) : Path := ⟨"", if place = [] then [""] else place.reverse⟩

theorem isAbsolute_ofPlace (place : List String) : (ofPlace place).isAbsolute = true := by
  cases place <;> simp [ofPlace, isAbsolute]

section OfPlace

variable {place : List String}

/-- The path to a place goes from the root through the names of the place. -/
theorem components_ofPlace (h : ∀ name ∈ place, IsName name) :
    (ofPlace place).components = .root :: place.reverse.map .normal := by
  rw [components_of_isAbsolute (isAbsolute_ofPlace place)]
  cases place with
  | nil => rfl
  | cons name outer =>
    have hmap : (name :: outer).reverse.filterMap component? =
        (name :: outer).reverse.map .normal := by
      rw [← List.filterMap_eq_map]
      exact List.filterMap_congr fun segment hsegment => h segment (List.mem_reverse.1 hsegment)
    rw [← hmap]
    rfl

theorem parent_not_mem_ofPlace (h : ∀ name ∈ place, IsName name) :
    .parent ∉ (ofPlace place).components := by
  rw [components_ofPlace h]
  simp

theorem names_ofPlace (h : ∀ name ∈ place, IsName name) :
    (ofPlace place).names = place.reverse := by
  rw [names, components_ofPlace h, List.filterMap_cons_none rfl, filterMap_name?_map_normal]

/-- The path to a place leads there. -/
theorem place_ofPlace (here : List String) (h : ∀ name ∈ place, IsName name) :
    (ofPlace place).place here = place := by
  rw [place_eq here (parent_not_mem_ofPlace h), names_ofPlace h, List.reverse_reverse, origin,
    if_pos (isAbsolute_ofPlace place), List.append_nil]

/-- The path above that to a place is the path to the place above. -/
theorem parent?_ofPlace_cons {name : String} (h : ∀ other ∈ name :: place, IsName other) :
    (ofPlace (name :: place)).parent? = some (ofPlace place) := by
  obtain ⟨hname, hplace⟩ := List.forall_mem_cons.1 h
  have hinner : (name :: place).dropWhile isVoid = name :: place := by
    rw [List.dropWhile_cons_of_neg]
    simp [isVoid_of_isName hname]
  have houter : place.dropWhile isVoid = place := by
    cases place with
    | nil => rfl
    | cons next outer =>
      rw [List.dropWhile_cons_of_neg]
      simp [isVoid_of_isName (hplace next List.mem_cons_self)]
  unfold parent? ofPlace
  simp only [reduceCtorEq, if_false, List.reverse_reverse, hinner, houter, decide_true,
    Bool.true_and, List.isEmpty_iff, List.reverse_eq_nil_iff]
  split <;> rfl

/-- The path to a place names the innermost directory of the place. -/
theorem fileName?_ofPlace_cons {name : String} (h : ∀ other ∈ name :: place, IsName other) :
    (ofPlace (name :: place)).fileName? = some name := by
  refine fileName?_eq_some_iff.2 ⟨.root :: place.reverse.map .normal, ?_⟩
  rw [components_ofPlace h, List.reverse_cons, List.map_append]
  rfl

/-- Above the path of a place are the paths of the places around it. -/
theorem ancestors_ofPlace (h : ∀ name ∈ place, IsName name) :
    (ofPlace place).ancestors = place.tails.map ofPlace := by
  induction place with
  | nil => rfl
  | cons name outer ih =>
    have houter := ih fun other hother => h other (List.mem_cons_of_mem _ hother)
    rw [ancestors_eq, parent?_ofPlace_cons h, Option.elim_some, houter, List.tails_cons]
    rfl

end OfPlace

/-- The path that names the same place as an absolute path without detours. -/
def resolved (p : Path) : Path := ofPlace (p.place [])

end Path

end Concord
