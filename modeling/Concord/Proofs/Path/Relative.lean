import Concord.Path.Relative
import Concord.Proofs.Path.Place
import Concord.Proofs.Path.Text

/-!
# Names under which paths are shown

Seen from a directory, a path is shown by the way there: up once for each name that the directory
does not have in common with the path, then down the names that are left of the path
(`Path.shownFrom_of_fork`). Following the way from the directory leads to the path again
(`Path.components_resolved_shownFrom`), which is why different paths never share a name.
-/

namespace Concord

/-- That two lists are alike at their start and part after that. -/
structure Fork {α : Type} (xs ys common below above : List α) : Prop where
  left : xs = common ++ below
  right : ys = common ++ above
  apart : below.head? ≠ above.head?

/-- Two different lists part somewhere. -/
theorem exists_fork {α : Type} {xs ys : List α} (h : xs ≠ ys) :
    ∃ common below above, Fork xs ys common below above := by
  induction xs generalizing ys with
  | nil =>
    cases ys with
    | nil => exact absurd rfl h
    | cons y ys => exact ⟨[], [], y :: ys, rfl, rfl, nofun⟩
  | cons x xs ih =>
    cases ys with
    | nil => exact ⟨[], x :: xs, [], rfl, rfl, nofun⟩
    | cons y ys =>
      by_cases hxy : x = y
      · have hrest : xs ≠ ys := fun heq => h (by rw [hxy, heq])
        obtain ⟨common, below, above, hfork⟩ := ih hrest
        refine ⟨x :: common, below, above, ?_, ?_, hfork.apart⟩
        · rw [hfork.left, List.cons_append]
        · rw [hxy, hfork.right, List.cons_append]
      · exact ⟨[], x :: xs, y :: ys, rfl, rfl, by simpa using hxy⟩

namespace Path

variable {p q root : Path} {common below above : List String}

/-! ## Ways -/

/-- The way out of the directories `above`, the outermost one first, and down to `below`. -/
def way (above below : List String) : List Component :=
  List.replicate above.length .parent ++ below.map .normal

/-- What two paths have in common is not gone through. -/
theorem route?_append (common path base : List Component) :
    route? false (common ++ path) (common ++ base) = route? false path base := by
  induction common with
  | nil => rfl
  | cons c common ih =>
    rw [List.cons_append, List.cons_append, route?, if_pos (by simp), ih]

/-- To a place above, the route has a step up for each component that is left. -/
theorem route?_nil (pushed : Bool) (base : List Component) :
    route? pushed [] base = some (List.replicate base.length .parent) := by
  induction base generalizing pushed with
  | nil => cases pushed <;> rfl
  | cons c base ih =>
    rw [route?, ih, Option.map_some, List.length_cons, List.replicate_succ]

/-- Once the lists of names have parted, the route leaves all that is left of the base. -/
theorem route?_of_head?_ne (h : below.head? ≠ above.head?) :
    route? false (below.map .normal) (above.map .normal) = some (way above below) := by
  cases above with
  | nil =>
    cases below with
    | nil => exact absurd rfl h
    | cons name below => rfl
  | cons outer above =>
    cases below with
    | nil => rw [List.map_nil, route?_nil, List.length_map, way, List.map_nil, List.append_nil]
    | cons name below =>
      have hname : name ≠ outer := fun heq => h (by rw [heq]; rfl)
      rw [List.map_cons, List.map_cons, route?, if_neg (by simp [hname]), if_neg nofun,
        if_neg nofun, List.map_map, way, List.length_cons, List.replicate_succ, List.map_cons]
      simp [Function.comp_def, List.map_const']

/-- Steps up leave the innermost names behind, as many as there are steps. -/
theorem foldl_enter_replicate_parent (steps : Nat) (place : List String) :
    (List.replicate steps Component.parent).foldl Component.enter place = place.drop steps := by
  induction steps generalizing place with
  | zero => rfl
  | succ steps ih =>
    rw [List.replicate_succ, List.foldl_cons, ih, Component.enter, List.drop_tail]

/-- The way from one place to another that has the same names at its start. -/
theorem foldl_enter_way (common above below : List String) :
    (way above below).foldl Component.enter (common ++ above).reverse =
      (common ++ below).reverse := by
  have hroot : .root ∉ below.map Component.normal := by simp
  have hparent : .parent ∉ below.map Component.normal := by simp
  have hout : (common ++ above).reverse.drop above.length = common.reverse := by
    rw [List.reverse_append, ← List.length_reverse, List.drop_left]
  rw [way, List.foldl_append, foldl_enter_replicate_parent, hout,
    foldl_enter_of_names hroot hparent, filterMap_name?_map_normal, List.reverse_append]

/-! ## Paths of components -/

/-- That a component is read back from the way it is written. -/
structure IsStep (c : Component) : Prop where
  read : component? c.text = some c
  slash : '/' ∉ c.text.toList

/-- A component that is a step is written down with at least one character. -/
theorem IsStep.text_ne {c : Component} (h : IsStep c) : c.text ≠ "" := by
  intro hempty
  have hread := h.read
  rw [hempty] at hread
  cases hread

theorem isStep_parent : IsStep .parent where
  read := rfl
  slash := by simp [Component.text]

theorem ofText_of_isStep {c : Component} (h : IsStep c) : ofText c.text = ⟨c.text, []⟩ := by
  have hsegments : ∀ segment ∈ segments ⟨c.text, []⟩, '/' ∉ segment.toList := by
    intro segment hsegment
    rw [segments, List.mem_singleton] at hsegment
    rw [hsegment]
    exact h.slash
  have htext : text ⟨c.text, []⟩ = c.text := String.intercalate_singleton
  have hread := ofText_text_iff.2 hsegments
  rwa [htext] at hread

/-- A joined path has the segments of both parts, if no segment of the directory is empty. -/
theorem segments_join {dir : Path} (hdir : ∀ segment ∈ dir.segments, segment ≠ "")
    (hp : p.isAbsolute = false) : (dir.join p).segments = dir.segments ++ p.segments := by
  have hempty : dir.isEmpty = false := by
    have hfirst := hdir dir.first List.mem_cons_self
    simp [isEmpty, hfirst]
  have hlast : dir.rest.getLast? ≠ some "" := fun hlast =>
    hdir "" (List.mem_cons_of_mem _ (List.mem_of_getLast? hlast)) rfl
  unfold join
  rw [if_neg (by simp [hp, hempty]), if_neg hlast]
  rfl

/-- A path that is made of steps has their texts for segments. -/
theorem segments_ofComponents {components : List Component} (h : ∀ c ∈ components, IsStep c)
    (hne : components ≠ []) :
    (ofComponents components).segments = components.map Component.text := by
  -- From the end, since each component is joined to the path of those before it.
  induction components using List.reverseRecOn with
  | nil => exact absurd rfl hne
  | append_singleton before c ih =>
    have hc := h c (List.mem_append_right _ List.mem_cons_self)
    have hbefore : ∀ b ∈ before, IsStep b := fun b hb => h b (List.mem_append_left _ hb)
    have hjoin : ofComponents (before ++ [c]) = (ofComponents before).join ⟨c.text, []⟩ := by
      rw [ofComponents, List.foldl_append, ← ofText_of_isStep hc]
      rfl
    rw [hjoin]
    by_cases hnil : before = []
    · rw [hnil, join_of_isEmpty rfl]
      rfl
    · have hsegments := ih hbefore hnil
      have hnonempty : ∀ segment ∈ (ofComponents before).segments, segment ≠ "" := by
        rw [hsegments]
        intro segment hsegment
        obtain ⟨b, hb, rfl⟩ := List.mem_map.1 hsegment
        exact (hbefore b hb).text_ne
      rw [segments_join hnonempty (isAbsolute_name _), hsegments, List.map_append]
      rfl

section OfComponents

variable {components : List Component} (h : ∀ c ∈ components, IsStep c) (hne : components ≠ [])

include h hne

/-- A path that is made of steps does not start at the root. -/
theorem first_ofComponents_ne : (ofComponents components).first ≠ "" := by
  have hfirst : (ofComponents components).first ∈ components.map Component.text := by
    rw [← segments_ofComponents h hne]
    exact List.mem_cons_self
  obtain ⟨c, hc, htext⟩ := List.mem_map.1 hfirst
  rw [← htext]
  exact (h c hc).text_ne

/-- A path that is made of steps is read back from its text. -/
theorem ofText_text_ofComponents :
    ofText (ofComponents components).text = ofComponents components := by
  refine ofText_text_iff.2 fun segment hsegment => ?_
  rw [segments_ofComponents h hne] at hsegment
  obtain ⟨c, hc, rfl⟩ := List.mem_map.1 hsegment
  exact (h c hc).slash

/-- Joining a path that is made of steps adds just these steps. -/
theorem components_join_ofComponents {dir : Path} (hdir : dir.isEmpty = false) :
    (dir.join (ofComponents components)).components = dir.components ++ components := by
  have hrelative : (ofComponents components).isAbsolute = false := by
    simp [isAbsolute, first_ofComponents_ne h hne]
  have hread : (components.map Component.text).filterMap component? = components := by
    rw [List.filterMap_map]
    exact (List.filterMap_congr fun c hc => (h c hc).read).trans List.filterMap_some
  rw [components_join hdir hrelative, ← filterMap_component?_segments hrelative,
    segments_ofComponents h hne, hread]

end OfComponents

/-! ## Paths that lead straight down -/

/-- That a path is written from the top down: it is the path of its text, it starts at the top and
it never goes up. -/
structure Direct (p : Path) : Prop where
  written : ofText p.text = p
  absolute : p.isAbsolute = true
  onward : .parent ∉ p.components

/-- An absolute text without steps up is the text of a direct path. -/
theorem direct_ofText {text : String} (habsolute : (ofText text).isAbsolute = true)
    (honward : .parent ∉ (ofText text).components) : (ofText text).Direct where
  written := by rw [text_ofText]
  absolute := habsolute
  onward := honward

namespace Direct

/-- A direct path goes from the root through its names. -/
theorem components_eq (h : p.Direct) : p.components = .root :: p.names.map .normal := by
  have hnormal : ∀ c ∈ p.rest.filterMap component?, (c.name?.map Component.normal) = some c := by
    intro c hc
    have honward : c ≠ .parent := by
      rintro rfl
      refine h.onward ?_
      rw [components_of_isAbsolute h.absolute]
      exact List.mem_cons_of_mem _ hc
    obtain ⟨segment, -, hsegment⟩ := List.mem_filterMap.1 hc
    cases c with
    | root => exact absurd hsegment (component?_ne_root segment)
    | current => exact absurd hsegment (component?_ne_current segment)
    | parent => exact absurd rfl honward
    | normal name => rfl
  have hnames : (p.rest.filterMap component?).filterMap (fun c => c.name?.map Component.normal) =
      p.rest.filterMap component? :=
    (List.filterMap_congr hnormal).trans List.filterMap_some
  rw [names, components_of_isAbsolute h.absolute, List.filterMap_cons_none rfl,
    List.map_filterMap, hnames]

theorem isStep_of_mem_names (h : p.Direct) {name : String} (hname : name ∈ p.names) :
    IsStep (.normal name) := by
  have hcomponent : .normal name ∈ p.components := by
    rw [h.components_eq]
    exact List.mem_cons_of_mem _ (List.mem_map_of_mem hname)
  obtain ⟨hsegment, hread⟩ := mem_segments_of_mem_components hcomponent
  exact ⟨hread, ofText_text_iff.1 h.written name hsegment⟩

theorem place_eq (h : p.Direct) : p.place [] = p.names.reverse := by
  rw [Path.place_eq [] h.onward, origin, if_pos h.absolute, List.append_nil]

/-- There is nothing to resolve in a direct path. -/
theorem components_resolved (h : p.Direct) : p.resolved.components = p.components := by
  rw [resolved, components_ofPlace fun _ => isName_of_mem_place_top, h.place_eq,
    List.reverse_reverse, h.components_eq]

end Direct

/-! ## Shown names -/

/-- The repository itself is shown by its whole path. -/
theorem shownFrom_of_components_eq (h : p.components = root.components) :
    p.shownFrom root = p.text := by
  have hroute : route? false root.components root.components = some [] := by
    have happend := route?_append root.components [] []
    rwa [List.append_nil] at happend
  have hway : p.relativeTo? root = some (ofComponents []) := by
    rw [relativeTo?, isAbsolute_congr h, bne_self_eq_false, if_neg Bool.false_ne_true, h, hroute,
      Option.map_some]
  rw [shownFrom, hway]
  rfl

section Fork

variable (hp : p.Direct) (hroot : root.Direct) (h : Fork p.names root.names common below above)

include h

theorem way_ne_nil : way above below ≠ [] := by
  intro hnil
  obtain ⟨hup, hdown⟩ := List.append_eq_nil_iff.1 hnil
  rw [List.replicate_eq_nil_iff, List.length_eq_zero_iff] at hup
  rw [List.map_eq_nil_iff] at hdown
  exact h.apart (by rw [hup, hdown])

include hp

theorem isStep_of_mem_way : ∀ c ∈ way above below, IsStep c := by
  intro c hc
  rw [way, List.mem_append] at hc
  rcases hc with hup | hdown
  · rw [List.eq_of_mem_replicate hup]
    exact isStep_parent
  · obtain ⟨name, hname, rfl⟩ := List.mem_map.1 hdown
    refine hp.isStep_of_mem_names ?_
    rw [h.left]
    exact List.mem_append_right _ hname

include hroot

/-- The way from one path to another goes up to where they part, and down from there. -/
theorem relativeTo?_of_fork : p.relativeTo? root = some (ofComponents (way above below)) := by
  have hroute : route? false p.components root.components = some (way above below) := by
    rw [hp.components_eq, hroot.components_eq, h.left, h.right, List.map_append, List.map_append,
      ← List.cons_append, ← List.cons_append, route?_append, route?_of_head?_ne h.apart]
  rw [relativeTo?, hp.absolute, hroot.absolute, bne_self_eq_false, if_neg Bool.false_ne_true,
    hroute, Option.map_some]

/-- What is shown is the text of that way. -/
theorem shownFrom_eq_text_way : p.shownFrom root = (ofComponents (way above below)).text := by
  have hfirst := first_ofComponents_ne (isStep_of_mem_way hp h) (way_ne_nil h)
  have hopen : (ofComponents (way above below)).isEmpty = false := by simp [isEmpty, hfirst]
  rw [shownFrom, relativeTo?_of_fork hp hroot h]
  simp only [hopen, Bool.false_eq_true, if_false]

/-- A path is shown by the way up from the root and down again. -/
theorem shownFrom_of_fork :
    p.shownFrom root = "/".intercalate (List.replicate above.length ".." ++ below) := by
  have htexts : (way above below).map Component.text =
      List.replicate above.length ".." ++ below := by
    rw [way, List.map_append, List.map_replicate, List.map_map]
    exact congrArg _ (List.map_id' below)
  rw [shownFrom_eq_text_way hp hroot h, text,
    segments_ofComponents (isStep_of_mem_way hp h) (way_ne_nil h), htexts]

/-- The way up from the root and down again leads to where the path leads. -/
theorem place_join_way : (root.join (ofComponents (way above below))).place [] = p.place [] := by
  have hcomponents := components_join_ofComponents (isStep_of_mem_way hp h) (way_ne_nil h)
    (isEmpty_of_isAbsolute hroot.absolute)
  have hplace : root.components.foldl Component.enter [] = (common ++ above).reverse := by
    rw [← h.right, ← hroot.place_eq]
    rfl
  rw [place, hcomponents, List.foldl_append, hplace, foldl_enter_way, hp.place_eq, h.left]

end Fork

/-- Direct paths part at a name. -/
theorem Direct.exists_fork_names (hp : p.Direct) (hroot : root.Direct)
    (h : p.components ≠ root.components) :
    ∃ common below above, Fork p.names root.names common below above := by
  refine exists_fork fun hnames => h ?_
  rw [hp.components_eq, hroot.components_eq, hnames]

/-- Whoever reads the name that a path is shown under, and follows it from the root, arrives at the
path. -/
theorem components_resolved_shownFrom (hp : p.Direct) (hroot : root.Direct) :
    (root.join (ofText (p.shownFrom root))).resolved.components = p.components := by
  by_cases hsame : p.components = root.components
  · -- The root goes by its own text, which is absolute, so that the join takes it as it is.
    rw [shownFrom_of_components_eq hsame, hp.written, join_of_isAbsolute root hp.absolute,
      hp.components_resolved]
  · obtain ⟨common, below, above, h⟩ := hp.exists_fork_names hroot hsame
    have hread := ofText_text_ofComponents (isStep_of_mem_way hp h) (way_ne_nil h)
    rw [shownFrom_eq_text_way hp hroot h, hread, resolved, place_join_way hp hroot h, ← resolved,
      hp.components_resolved]

/-- Paths that are shown under one name have the same components. -/
theorem components_eq_of_shownFrom_eq (hp : p.Direct) (hq : q.Direct) (hroot : root.Direct)
    (h : p.shownFrom root = q.shownFrom root) : p.components = q.components := by
  rw [← components_resolved_shownFrom hp hroot, h, components_resolved_shownFrom hq hroot]

end Path

end Concord
