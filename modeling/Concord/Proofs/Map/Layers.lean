import Concord.Proofs.Map.Collect

/-!
# What many layers come to

Layers are merged onto a start, lowest first. Where merging two layers keeps the upper layer's value
of something, merging many keeps the value of the last layer that has one; where it collects names,
merging many collects the names of all layers in order. Each law is stated for any way of merging,
so that it is used once for each part of a configuration that behaves in this way.
-/

namespace Concord

variable {S β : Type}

/-- Where the upper value replaces the lower one, the last layer that has a value decides. -/
theorem foldl_last_value (merge : S → S → S) (value : S → Option β)
    (hmerge : ∀ lower upper, value (merge lower upper) = (value upper).or (value lower))
    (layers : List S) (start : S) :
    value (layers.foldl merge start) = (layers.filterMap value).getLast?.or (value start) := by
  induction layers generalizing start with
  | nil => rfl
  | cons layer rest ih =>
    rw [List.foldl_cons, ih, hmerge, ← Option.or_assoc]
    congr 1
    cases h : value layer with
    | none => rw [List.filterMap_cons_none h, Option.or_none]
    | some v =>
      rw [List.filterMap_cons_some h, List.getLast?_cons]
      cases (rest.filterMap value).getLast? <;> rfl

/-- A layer's value stands if no later layer has one, whatever lies below. -/
theorem getLast?_filterMap_of_later (value : S → Option β) {layer : S} {v : β}
    (hv : value layer = some v) (below : List S) {later : List S}
    (hlater : ∀ other ∈ later, value other = none) :
    ((below ++ layer :: later).filterMap value).getLast? = some v := by
  have hnone : later.filterMap value = [] := List.filterMap_eq_nil_iff.2 hlater
  rw [List.filterMap_append, List.filterMap_cons_some hv, hnone, List.getLast?_concat]

/-- Where names are collected, those of the start and of all layers are, in order. -/
theorem foldl_collect (merge : S → S → S) (names : S → List String)
    (hmerge : ∀ lower upper, names (merge lower upper) = collect (names lower) (names upper))
    (layers : List S) (start : S) :
    names (layers.foldl merge start) = collect (names start) (layers.flatMap names) := by
  induction layers generalizing start with
  | nil => rfl
  | cons layer rest ih => rw [List.foldl_cons, ih, hmerge, List.flatMap_cons, collect_append]

end Concord
