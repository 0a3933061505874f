import Concord.Proofs.Format.Options
import Concord.Proofs.Map.Layers

/-!
# Layers of formatter options

Formatter options come from many places, each laid over the one below. The overlay is associative
and idempotent, and no options are neutral on either side, so that layers may be gathered in any
grouping. `Layered` says what many layers come to without laying them over one another, and
`FormatOptions.overlay_layers` that they come to just that.
-/

namespace Concord.FormatOptions

/-! ## Two layers -/

/-- Layers may be laid over one another in any grouping. -/
theorem overlay_assoc (lower middle upper : FormatOptions) :
    (lower.overlay middle).overlay upper = lower.overlay (middle.overlay upper) := by
  refine ext_get? (fun key => ?_) ?_
  · simp only [get?_overlay, Option.or_assoc]
  · exact OrderedMap.overlay_assoc lower.extra middle.extra upper.extra

instance : Std.Associative overlay := ⟨overlay_assoc⟩

theorem overlay_empty (o : FormatOptions) : o.overlay empty = o :=
  ext_get? (fun _ => Option.none_or) (OrderedMap.overlay_empty o.extra)

theorem empty_overlay (o : FormatOptions) : empty.overlay o = o :=
  ext_get? (fun _ => Option.or_none) (OrderedMap.empty_overlay o.extra)

theorem overlay_self (o : FormatOptions) : o.overlay o = o :=
  ext_get? (fun _ => Option.or_self) (OrderedMap.overlay_self o.extra)

/-! ## Many layers -/

/-- Options that hold what layers, lowest first, come to. -/
structure Layered (layers : List FormatOptions) (result : FormatOptions) : Prop where
  /-- The last layer with a value for an option decides it. -/
  typed : ∀ key, result.get? key = (layers.filterMap (·.get? key)).getLast?
  /-- The last layer with a value under a name that passes through decides it. -/
  extra : ∀ name, result.extra.find? name = (layers.filterMap (·.extra.find? name)).getLast?
  /-- What passes through stands in the order in which layers first mention it. -/
  order : result.extra.keys = (layers.flatMap (·.extra.keys)).eraseDups

/-- Layers come to one set of options at most. -/
theorem Layered.unique {layers : List FormatOptions} {a b : FormatOptions}
    (ha : Layered layers a) (hb : Layered layers b) : a = b := by
  refine ext_get? (fun key => ?_) (OrderedMap.ext_keys_find? ?_ fun name => ?_)
  · rw [ha.typed, hb.typed]
  · rw [ha.order, hb.order]
  · rw [ha.extra, hb.extra]

/-- An option has a value exactly if some layer gives it one. -/
theorem Layered.contains_iff {layers : List FormatOptions} {o : FormatOptions}
    (h : Layered layers o) (key : FormatOption) :
    o.contains key = true ↔ ∃ layer ∈ layers, layer.contains key = true := by
  have hlast : (o.get? key).isSome = true ↔ layers.filterMap (·.get? key) ≠ [] := by
    rw [h.typed, List.getLast?_isSome]
  refine hlast.trans ?_
  rw [ne_eq, List.filterMap_eq_nil_iff]
  simp only [not_forall, exists_prop, ← ne_eq, Option.ne_none_iff_isSome]
  rfl

/-- A name passes through exactly if some layer has it. -/
theorem Layered.mem_keys_iff {layers : List FormatOptions} {o : FormatOptions}
    (h : Layered layers o) (name : String) :
    name ∈ o.extra.keys ↔ ∃ layer ∈ layers, name ∈ layer.extra.keys := by
  rw [h.order, List.mem_eraseDups, List.mem_flatMap]

/-- Layers, lowest first, laid over one another. -/
def overlayAll (layers : List FormatOptions) : FormatOptions := layers.foldl overlay empty

/-- Layers can be laid over each other in two parts. -/
theorem overlayAll_append (lower upper : List FormatOptions) :
    overlayAll (lower ++ upper) = (overlayAll lower).overlay (overlayAll upper) := by
  have hupper : upper.foldl overlay ((overlayAll lower).overlay empty) =
      (overlayAll lower).overlay (overlayAll upper) := List.foldl_assoc
  rwa [overlay_empty, overlayAll, ← List.foldl_append] at hupper

/-- Options that are laid over each other one by one come to what is said of the layers as a whole.
-/
theorem layered_overlayAll (layers : List FormatOptions) : Layered layers (overlayAll layers) where
  typed key := by
    rw [overlayAll, foldl_last_value overlay (·.get? key) fun _ _ => rfl]
    exact Option.or_none
  extra name := by
    rw [overlayAll, foldl_last_value overlay (·.extra.find? name) fun _ _ =>
      OrderedMap.find?_overlay _ _ name]
    exact Option.or_none
  order := by
    rw [overlayAll, foldl_collect overlay (·.extra.keys) fun _ _ => OrderedMap.keys_overlay _ _]
    exact collect_nil_left _

/-- The overlay is associative and idempotent, and no options are neutral on either side; all this
holds with the order of what passes through. Layers laid over one another come to what `Layered`
says and to nothing else, in whatever grouping they are gathered. Nothing that a layer mentions is
lost, and nothing comes in that none of them mentions. -/
theorem overlay_layers :
    (∀ lower middle upper : FormatOptions,
      (lower.overlay middle).overlay upper = lower.overlay (middle.overlay upper)) ∧
    (∀ o : FormatOptions, o.overlay o = o ∧ empty.overlay o = o ∧ o.overlay empty = o) ∧
    (∀ lower upper : List FormatOptions,
      overlayAll (lower ++ upper) = (overlayAll lower).overlay (overlayAll upper)) ∧
    ∀ layers : List FormatOptions,
      (∀ result, result = overlayAll layers ↔ Layered layers result) ∧
      (∀ key, (overlayAll layers).contains key = true ↔
        ∃ layer ∈ layers, layer.contains key = true) ∧
      ∀ name, name ∈ (overlayAll layers).extra.keys ↔
        ∃ layer ∈ layers, name ∈ layer.extra.keys := by
  refine ⟨overlay_assoc, fun o => ⟨overlay_self o, empty_overlay o, overlay_empty o⟩,
    overlayAll_append, fun layers => ?_⟩
  have hlayered := layered_overlayAll layers
  refine ⟨fun result => ⟨?_, fun h => h.unique hlayered⟩, hlayered.contains_iff,
    hlayered.mem_keys_iff⟩
  rintro rfl
  exact hlayered

/-- An option that a layer overwrites keeps its place among those that pass through. -/
example :
    (overlayAll [empty.set "parser" (.string "babel"), empty.set "endOfLine" (.string "lf"),
      empty.set "parser" (.string "flow")]).extra.entries =
        [("parser", .string "flow"), ("endOfLine", .string "lf")] := by rfl

end Concord.FormatOptions
