import Concord.Proofs.Map.Collect
import Concord.Proofs.Map.Entries

/-!
# Laws of maps in insertion order

An ordered map is determined by its names, in order, and by what is found under them
(`OrderedMap.ext_keys_find?`). Of an overlay, `find?_overlay` says what is found and `keys_overlay`
in which order the names stand: the upper value wins, the lower position stays.
-/

namespace Concord.OrderedMap

variable {α : Type}

/-! ## Names and look-ups -/

@[simp] theorem find?_empty (name : String) : (empty : OrderedMap α).find? name = none := rfl

@[simp] theorem keys_empty : (empty : OrderedMap α).keys = [] := rfl

/-- A list of entries without repeats is rebuilt from its names and look-ups. -/
theorem eq_map_lookup {entries : List (String × α)} (hd : (entries.map Prod.fst).Nodup) :
    entries.map some =
      (entries.map Prod.fst).map fun name => (entries.lookup name).map (name, ·) := by
  rw [List.map_map]
  refine List.map_congr_left fun entry hentry => ?_
  have hfound : entries.lookup entry.1 = some entry.2 := lookup_of_mem hd hentry
  simp [hfound]

/-- Two maps with the same names in the same order and the same look-ups are equal. -/
theorem ext_keys_find? {m n : OrderedMap α} (hkeys : m.keys = n.keys)
    (hfind : ∀ name, m.find? name = n.find? name) : m = n := by
  obtain ⟨entries, hm⟩ := m
  obtain ⟨entries', hn⟩ := n
  have hk : entries.map Prod.fst = entries'.map Prod.fst := hkeys
  have hf : ∀ name, entries.lookup name = entries'.lookup name := hfind
  have hsome : entries.map some = entries'.map some := by
    rw [eq_map_lookup hm, eq_map_lookup hn, hk]
    simp only [hf]
  have hentries : entries = entries' :=
    List.map_injective_iff.2 (fun _ _ h => Option.some.inj h) hsome
  subst hentries
  rfl

/-! ## Insertion -/

theorem lookup_write (key : String) (value : α) (entries : List (String × α)) (name : String) :
    (write key value entries).lookup name =
      if name = key then some value else entries.lookup name := by
  induction entries with
  | nil => simp [write, lookup_cons_eq]
  | cons entry rest ih =>
    rw [write]
    split
    · next hentry => by_cases hn : name = key <;> simp [lookup_cons_eq, hentry, hn]
    · next hentry =>
      rw [lookup_cons_eq, ih, lookup_cons_eq]
      by_cases hn : name = key
      · have hne : name ≠ entry.1 := fun e => hentry (e.symm.trans hn)
        simp [hn, hn ▸ hne]
      · simp [hn]

/-- Inserting a value changes what is found under its name, and under no other. -/
@[simp] theorem find?_insert (m : OrderedMap α) (key : String) (value : α) (name : String) :
    (m.insert key value).find? name = if name = key then some value else m.find? name :=
  lookup_write key value m.entries name

/-- A name that is new comes last; one that is there keeps its place. -/
@[simp] theorem keys_insert (m : OrderedMap α) (key : String) (value : α) :
    (m.insert key value).keys = collect m.keys [key] := by
  rw [collect_singleton]
  exact map_fst_write key value m.entries

/-- Of a name written several times the last value counts. -/
theorem find?_insertAll (m : OrderedMap α) (entries : List (String × α)) (name : String) :
    (m.insertAll entries).find? name = (entries.reverse.lookup name).or (m.find? name) :=
  find_foldl_insert find? insert find?_insert entries m name

/-- Names that are inserted one after another are collected. -/
theorem keys_insertAll (m : OrderedMap α) (entries : List (String × α)) :
    (m.insertAll entries).keys = collect m.keys (entries.map Prod.fst) := by
  induction entries generalizing m with
  | nil => rfl
  | cons entry rest ih =>
    have hstep : m.insertAll (entry :: rest) = (m.insert entry.1 entry.2).insertAll rest := rfl
    rw [hstep, ih, keys_insert, List.map_cons, ← collect_cons]

/-! ## Entries -/

theorem ext_entries {m n : OrderedMap α} (h : m.entries = n.entries) : m = n := by
  obtain ⟨entries, hm⟩ := m
  obtain ⟨entries', hn⟩ := n
  have hentries : entries = entries' := h
  subst hentries
  rfl

/-- A value under a new name is written at the end. -/
theorem write_of_notMem {key : String} (value : α) {entries : List (String × α)}
    (h : key ∉ entries.map Prod.fst) : write key value entries = entries ++ [(key, value)] := by
  induction entries with
  | nil => rfl
  | cons entry rest ih =>
    rw [List.map_cons, List.mem_cons, not_or] at h
    rw [write, if_neg fun e => h.1 e.symm, ih h.2]
    rfl

/-- Entries with new names that are distinct are all appended. -/
theorem entries_insertAll {m : OrderedMap α} {entries : List (String × α)}
    (hd : (entries.map Prod.fst).Nodup) (hnew : ∀ name ∈ entries.map Prod.fst, name ∉ m.keys) :
    (m.insertAll entries).entries = m.entries ++ entries := by
  induction entries generalizing m with
  | nil => exact (List.append_nil m.entries).symm
  | cons entry rest ih =>
    obtain ⟨hentry, hrest⟩ := List.nodup_cons.1 hd
    obtain ⟨hfirst, hothers⟩ := List.forall_mem_cons.1 hnew
    have hstep : m.insertAll (entry :: rest) = (m.insert entry.1 entry.2).insertAll rest := rfl
    have hwritten : (m.insert entry.1 entry.2).entries = m.entries ++ [entry] :=
      write_of_notMem entry.2 hfirst
    have hstill : ∀ name ∈ rest.map Prod.fst, name ∉ (m.insert entry.1 entry.2).keys := by
      intro name hname
      rw [keys_insert, mem_collect, List.mem_singleton, not_or]
      exact ⟨hothers name hname, fun e => hentry (e ▸ hname)⟩
    rw [hstep, ih hrest hstill, hwritten, List.append_assoc, List.singleton_append]

/-- Entries without repeated names are the map that they make. -/
theorem entries_ofList {entries : List (String × α)} (hd : (entries.map Prod.fst).Nodup) :
    (ofList entries).entries = entries := by
  rw [ofList, entries_insertAll hd (by simp)]
  rfl

theorem eq_empty_of_isEmpty {m : OrderedMap α} (h : m.isEmpty = true) : m = empty :=
  ext_entries (List.isEmpty_iff.1 h)

theorem ofList_entries (m : OrderedMap α) : ofList m.entries = m :=
  ext_entries (entries_ofList m.nodup)

/-! ## Overlay -/

@[simp] theorem find?_overlay (lower upper : OrderedMap α) (name : String) :
    (lower.overlay upper).find? name = (upper.find? name).or (lower.find? name) := by
  rw [overlay, find?_insertAll, lookup_reverse upper.nodup]
  rfl

/-- The names of the lower layer come first, and keep their places. -/
@[simp] theorem keys_overlay (lower upper : OrderedMap α) :
    (lower.overlay upper).keys = collect lower.keys upper.keys :=
  keys_insertAll lower upper.entries

/-- Layers may be overlaid in any grouping. -/
theorem overlay_assoc (lower middle upper : OrderedMap α) :
    (lower.overlay middle).overlay upper = lower.overlay (middle.overlay upper) := by
  refine ext_keys_find? ?_ fun name => ?_
  · simp [collect_assoc]
  · simp [Option.or_assoc]

@[simp] theorem overlay_empty (m : OrderedMap α) : m.overlay empty = m := rfl

@[simp] theorem empty_overlay (m : OrderedMap α) : empty.overlay m = m := ofList_entries m

@[simp] theorem overlay_self (m : OrderedMap α) : m.overlay m = m := by
  refine ext_keys_find? ?_ fun name => ?_
  · rw [keys_overlay, collect_self]
  · rw [find?_overlay, Option.or_self]

end Concord.OrderedMap
