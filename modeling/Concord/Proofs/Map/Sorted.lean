import Concord.Map.Sorted
import Concord.Proofs.Map.Entries

/-!
# Laws of maps in key order

A sorted map is determined by what is found in it (`SortedMap.ext_find?`), since its names have no
order but their own. `find?_overlay` and `find?_overlayWith` say what is found in layered maps.
-/

namespace Concord.SortedMap

variable {α : Type}

/-! ## Look-ups determine the map -/

/-- No name stands there twice, since the names increase. -/
theorem nodup_keys (m : SortedMap α) : (m.entries.map Prod.fst).Nodup := by
  rw [List.nodup_iff_pairwise_ne, List.pairwise_map]
  refine m.sorted.imp fun hlt heq => ?_
  rw [heq] at hlt
  exact String.lt_irrefl _ hlt

/-- The entries are what can be found. -/
theorem mem_entries_iff {m : SortedMap α} {name : String} {value : α} :
    (name, value) ∈ m.entries ↔ m.find? name = some value :=
  ⟨lookup_of_mem m.nodup_keys, mem_of_lookup⟩

/-- Two maps in which the same is found are equal. -/
theorem ext_find? {m n : SortedMap α} (h : ∀ name, m.find? name = n.find? name) : m = n := by
  have hperm : m.entries.Perm n.entries := by
    refine (List.perm_ext_iff_of_nodup (.of_map _ m.nodup_keys) (.of_map _ n.nodup_keys)).2 ?_
    rintro ⟨name, value⟩
    rw [mem_entries_iff, mem_entries_iff, h]
  have hentries : m.entries = n.entries := by
    refine hperm.eq_of_pairwise (fun a b _ _ hab hba => ?_) m.sorted n.sorted
    exact absurd hba (String.lt_asymm hab)
  obtain ⟨entries, hm⟩ := m
  subst hentries
  rfl

theorem eq_empty_of_isEmpty {m : SortedMap α} (h : m.isEmpty = true) : m = empty := by
  obtain ⟨entries, hm⟩ := m
  have hentries : entries = [] := List.isEmpty_iff.1 h
  subst hentries
  rfl

theorem sorted_keys (m : SortedMap α) : m.keys.Pairwise (· < ·) := List.pairwise_map.2 m.sorted

theorem mem_keys_iff {m : SortedMap α} {name : String} :
    name ∈ m.keys ↔ ∃ value, m.find? name = some value := by
  constructor
  · intro h
    obtain ⟨entry, hentry, rfl⟩ := List.mem_map.1 h
    exact ⟨entry.2, mem_entries_iff.1 hentry⟩
  · rintro ⟨value, hvalue⟩
    exact List.mem_map.2 ⟨(name, value), mem_entries_iff.2 hvalue, rfl⟩

theorem find?_eq_none_iff {m : SortedMap α} {name : String} :
    m.find? name = none ↔ name ∉ m.keys :=
  lookup_eq_none_iff_notMem

/-! ## Replacing values -/

@[simp] theorem find?_mapEntries {β : Type} (f : String → α → β) (m : SortedMap α)
    (name : String) : (m.mapEntries f).find? name = (m.find? name).map (f name) :=
  lookup_map f m.entries name

@[simp] theorem keys_mapEntries {β : Type} (f : String → α → β) (m : SortedMap α) :
    (m.mapEntries f).keys = m.keys := by
  unfold keys mapEntries
  rw [List.map_map]
  rfl

/-! ## Leaving entries out -/

/-- The map without the entries whose values are not kept. -/
def filterValues (keep : α → Bool) (m : SortedMap α) : SortedMap α :=
  ⟨m.entries.filter fun entry => keep entry.2, m.sorted.filter _⟩

/-- Only what is kept can be found. -/
theorem find?_filterValues (keep : α → Bool) (m : SortedMap α) (name : String) :
    (m.filterValues keep).find? name = (m.find? name).filter keep := by
  refine Option.ext fun value => ?_
  rw [← mem_entries_iff, Option.filter_eq_some_iff, ← mem_entries_iff]
  exact List.mem_filter

/-! ## Insertion -/

theorem lookup_write (key : String) (value : α) (entries : List (String × α)) (name : String) :
    (write key value entries).lookup name =
      if name = key then some value else entries.lookup name := by
  induction entries with
  | nil => simp [write, lookup_cons_eq]
  | cons entry rest ih =>
    rw [write]
    split
    · rw [lookup_cons_eq]
    · split
      · next hentry => by_cases hn : name = key <;> simp [lookup_cons_eq, ← hentry, hn]
      · next hentry =>
        rw [lookup_cons_eq, ih, lookup_cons_eq]
        by_cases hn : name = key
        · simp [hn, hentry]
        · simp [hn]

/-- Inserting a value changes what is found under its name, and under no other. -/
@[simp] theorem find?_insert (m : SortedMap α) (key : String) (value : α) (name : String) :
    (m.insert key value).find? name = if name = key then some value else m.find? name :=
  lookup_write key value m.entries name

/-- Of a name written several times the last value counts. -/
theorem find?_insertAll (m : SortedMap α) (entries : List (String × α)) (name : String) :
    (m.insertAll entries).find? name = (entries.reverse.lookup name).or (m.find? name) :=
  find_foldl_insert find? insert find?_insert entries m name

theorem ofList_entries (m : SortedMap α) : ofList m.entries = m := by
  refine ext_find? fun name => ?_
  have hfound := find?_insertAll empty m.entries name
  rw [lookup_reverse m.nodup_keys] at hfound
  exact hfound.trans (Option.or_none)

/-! ## Overlay -/

@[simp] theorem find?_overlay (lower upper : SortedMap α) (name : String) :
    (lower.overlay upper).find? name = (upper.find? name).or (lower.find? name) := by
  rw [overlay, find?_insertAll, lookup_reverse upper.nodup_keys]
  rfl

/-- Layers may be overlaid in any grouping. -/
theorem overlay_assoc (lower middle upper : SortedMap α) :
    (lower.overlay middle).overlay upper = lower.overlay (middle.overlay upper) := by
  refine ext_find? fun name => ?_
  simp [Option.or_assoc]

@[simp] theorem overlay_empty (m : SortedMap α) : m.overlay empty = m := rfl

@[simp] theorem empty_overlay (m : SortedMap α) : empty.overlay m = m := ofList_entries m

@[simp] theorem overlay_self (m : SortedMap α) : m.overlay m = m := by
  refine ext_find? fun name => ?_
  rw [find?_overlay, Option.or_self]

/-- An upper value combined with the lower one, if there is one. -/
def combined (combine : α → α → α) (lower : Option α) (upper : α) : α :=
  match lower with
  | some old => combine upper old
  | none => upper

/-- Names that are distinct are each combined with what the map held at the start. -/
theorem find?_foldl_combined (combine : α → α → α) {entries : List (String × α)}
    (hd : (entries.map Prod.fst).Nodup) (lower : SortedMap α) (name : String) :
    (entries.foldl
        (fun m entry => m.insert entry.1 (combined combine (m.find? entry.1) entry.2))
        lower).find? name =
      ((entries.lookup name).map (combined combine (lower.find? name))).or
        (lower.find? name) := by
  induction entries generalizing lower with
  | nil => rfl
  | cons entry rest ih =>
    obtain ⟨hentry, hrest⟩ := List.nodup_cons.1 hd
    rw [List.foldl_cons, ih hrest, find?_insert, lookup_cons_eq]
    by_cases hn : name = entry.1
    · have hgone : rest.lookup name = none := lookup_eq_none_iff_notMem.2 (hn ▸ hentry)
      rw [if_pos hn, if_pos hn, hgone, hn]
      rfl
    · simp only [if_neg hn]

/-- Under each name the combination of the two values is found, or the only one there is. -/
theorem find?_overlayWith (combine : α → α → α) (lower upper : SortedMap α) (name : String) :
    (lower.overlayWith combine upper).find? name =
      ((upper.find? name).map (combined combine (lower.find? name))).or (lower.find? name) :=
  find?_foldl_combined combine upper.nodup_keys lower name

/-- Layers whose values are combined by an associative operation may be overlaid in any grouping. -/
theorem overlayWith_assoc {combine : α → α → α}
    (hcombine : ∀ a b c, combine (combine a b) c = combine a (combine b c))
    (lower middle upper : SortedMap α) :
    (lower.overlayWith combine middle).overlayWith combine upper =
      lower.overlayWith combine (middle.overlayWith combine upper) := by
  refine ext_find? fun name => ?_
  simp only [find?_overlayWith]
  cases upper.find? name with
  | none => rfl
  | some u =>
    cases middle.find? name with
    | none => rfl
    | some m =>
      cases lower.find? name with
      | none => rfl
      | some l => simp [combined, hcombine]

@[simp] theorem overlayWith_empty (combine : α → α → α) (m : SortedMap α) :
    m.overlayWith combine empty = m :=
  rfl

@[simp] theorem empty_overlayWith (combine : α → α → α) (m : SortedMap α) :
    empty.overlayWith combine m = m := by
  refine ext_find? fun name => ?_
  rw [find?_overlayWith]
  cases m.find? name <;> rfl

/-- A layer over itself is the same where combining a value with itself is. -/
theorem overlayWith_self {combine : α → α → α} (hcombine : ∀ a, combine a a = a)
    (m : SortedMap α) : m.overlayWith combine m = m := by
  refine ext_find? fun name => ?_
  rw [find?_overlayWith]
  cases m.find? name with
  | none => rfl
  | some value => exact congrArg some (hcombine value)

end Concord.SortedMap
