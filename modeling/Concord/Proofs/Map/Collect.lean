import Concord.Map.Ordered

/-!
# Names in order of first appearance

`collect` adds to a list what it does not hold yet. Started from a list without repeats it is
`List.eraseDups` of the two lists one after the other: every name once, where it first appears. It
is associative, whatever repeats the lists hold, so that layers may be gathered in any grouping.
-/

namespace Concord

/-! ## First appearances -/

/-- One more item at the end of a list changes the distinct items only if it is new. -/
theorem eraseDups_concat (items : List String) (item : String) :
    (items ++ [item]).eraseDups =
      if item ∈ items then items.eraseDups else items.eraseDups ++ [item] := by
  rw [List.eraseDups_append]
  by_cases h : item ∈ items
  · have hgone : [item].removeAll items = [] := by simp [List.removeAll, h]
    rw [hgone, if_pos h, List.eraseDups_nil, List.append_nil]
  · have hkept : [item].removeAll items = [item] := by simp [List.removeAll, h]
    rw [hkept, if_neg h]
    rfl

/-- A list without repeats is its own list of distinct items. -/
theorem eraseDups_of_nodup {items : List String} (h : items.Nodup) : items.eraseDups = items := by
  induction items with
  | nil => rfl
  | cons item rest ih =>
    obtain ⟨hitem, hrest⟩ := List.nodup_cons.1 h
    have hkept : rest.filter (fun other => !other == item) = rest := by
      refine List.filter_eq_self.2 fun other hother => ?_
      have hne : other ≠ item := fun e => hitem (e ▸ hother)
      simp [hne]
    rw [List.eraseDups_cons, hkept, ih hrest]

/-! ## Collecting -/

theorem collect_nil (lower : List String) : collect lower [] = lower := rfl

/-- Collecting one item. -/
theorem collect_singleton (lower : List String) (item : String) :
    collect lower [item] = if item ∈ lower then lower else lower ++ [item] := by
  by_cases h : item ∈ lower <;> simp [collect, h]

/-- Collecting two lists one after the other. -/
theorem collect_append (lower first second : List String) :
    collect lower (first ++ second) = collect (collect lower first) second := by
  simp [collect, List.foldl_append]

theorem collect_cons (lower : List String) (item : String) (rest : List String) :
    collect lower (item :: rest) = collect (collect lower [item]) rest :=
  collect_append lower [item] rest

/-- An item is collected exactly if one of the lists holds it. -/
theorem mem_collect {lower upper : List String} {item : String} :
    item ∈ collect lower upper ↔ item ∈ lower ∨ item ∈ upper := by
  induction upper generalizing lower with
  | nil => simp [collect_nil]
  | cons first rest ih =>
    have hfirst : item ∈ collect lower [first] ↔ item ∈ lower ∨ item = first := by
      rw [collect_singleton]
      split
      · next hin => exact ⟨.inl, fun h => h.elim id fun e => e ▸ hin⟩
      · simp
    rw [collect_cons, ih, hfirst, List.mem_cons, or_assoc]

/-- Collecting into a list one item more than before. -/
theorem collect_collect_singleton (lower middle : List String) (item : String) :
    collect lower (collect middle [item]) = collect (collect lower middle) [item] := by
  rw [collect_singleton middle]
  split
  · next hin =>
    have hmem : item ∈ collect lower middle := mem_collect.2 (.inr hin)
    rw [collect_singleton, if_pos hmem]
  · rw [collect_append]

/-- Collecting what is there already adds nothing. -/
theorem collect_of_subset {lower upper : List String} (h : ∀ item ∈ upper, item ∈ lower) :
    collect lower upper = lower := by
  induction upper with
  | nil => rfl
  | cons first rest ih =>
    obtain ⟨hfirst, hrest⟩ := List.forall_mem_cons.1 h
    rw [collect_cons, collect_singleton, if_pos hfirst, ih hrest]

@[simp] theorem collect_self (items : List String) : collect items items = items :=
  collect_of_subset fun _ hitem => hitem

/-- Collecting is associative. -/
theorem collect_assoc (lower middle upper : List String) :
    collect lower (collect middle upper) = collect (collect lower middle) upper := by
  induction upper generalizing middle with
  | nil => rfl
  | cons first rest ih =>
    rw [collect_cons middle, ih, collect_collect_singleton, ← collect_cons]

/-- Collecting from distinct items gathers the distinct items of both lists. -/
theorem collect_eraseDups (lower upper : List String) :
    collect lower.eraseDups upper = (lower ++ upper).eraseDups := by
  induction upper generalizing lower with
  | nil => rw [collect_nil, List.append_nil]
  | cons first rest ih =>
    have hstep : collect lower.eraseDups [first] = (lower ++ [first]).eraseDups := by
      rw [collect_singleton, eraseDups_concat]
      simp only [List.mem_eraseDups]
    rw [collect_cons, hstep, ih, List.append_assoc, List.singleton_append]

/-- To a list without repetition the items that are new are added, each once. -/
theorem collect_of_nodup {lower : List String} (h : lower.Nodup) (upper : List String) :
    collect lower upper = (lower ++ upper).eraseDups := by
  rw [← collect_eraseDups, eraseDups_of_nodup h]

/-- Everything collected from nothing. -/
theorem collect_nil_left (upper : List String) : collect [] upper = upper.eraseDups := by
  rw [collect_of_nodup List.nodup_nil, List.nil_append]

/-- Collecting names never repeats one. -/
theorem nodup_collect {lower : List String} (h : lower.Nodup) (upper : List String) :
    (collect lower upper).Nodup := by
  induction upper generalizing lower with
  | nil => exact h
  | cons first rest ih =>
    rw [collect_cons]
    refine ih ?_
    rw [collect_singleton]
    split
    · exact h
    · next hnew =>
      refine List.nodup_append.2 ⟨h, by simp, ?_⟩
      rintro item hitem _ hlast rfl
      exact hnew (List.mem_singleton.1 hlast ▸ hitem)

/-- Dropping repeats leaves a list as it is exactly if it has none. -/
theorem eraseDups_eq_self_iff {items : List String} : items.eraseDups = items ↔ items.Nodup := by
  refine ⟨fun h => ?_, eraseDups_of_nodup⟩
  rw [← h, ← collect_nil_left]
  exact nodup_collect List.nodup_nil items

end Concord
