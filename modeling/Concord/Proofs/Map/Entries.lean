import Concord.Map.Ordered
import Mathlib.Data.List.Nodup

/-!
# Lists of named values

Both kinds of map keep a list of entries and look names up in it. The first entry of a name counts
for `List.lookup`; where no name is repeated, `lookup` and membership say the same, and the order of
the entries does not matter. `find_foldl_insert` is the law of writing many entries one after
another: of a name the last one written counts.
-/

namespace Concord

variable {α : Type}

theorem lookup_cons_eq (entry : String × α) (rest : List (String × α)) (name : String) :
    (entry :: rest).lookup name = if name = entry.1 then some entry.2 else rest.lookup name := by
  obtain ⟨key, value⟩ := entry
  by_cases h : name = key
  · simp [h]
  · simp [List.lookup_cons, beq_false_of_ne h, h]

/-- A name is looked up in vain exactly if no entry has it. -/
theorem lookup_eq_none_iff_notMem {entries : List (String × α)} {name : String} :
    entries.lookup name = none ↔ name ∉ entries.map Prod.fst := by
  induction entries with
  | nil => simp
  | cons entry rest ih =>
    rw [lookup_cons_eq, List.map_cons, List.mem_cons]
    by_cases h : name = entry.1
    · simp [h]
    · simp [h, ih]

/-- What a look-up finds stands in the list. -/
theorem mem_of_lookup {entries : List (String × α)} {name : String} {value : α}
    (h : entries.lookup name = some value) : (name, value) ∈ entries := by
  obtain ⟨before, after, rfl, -⟩ := List.lookup_eq_some_iff.1 h
  simp

/-- Where no name is repeated, every entry is found under its name. -/
theorem lookup_of_mem {entries : List (String × α)} (hd : (entries.map Prod.fst).Nodup)
    {name : String} {value : α} (h : (name, value) ∈ entries) :
    entries.lookup name = some value := by
  induction entries with
  | nil => cases h
  | cons entry rest ih =>
    obtain ⟨hentry, hrest⟩ := List.nodup_cons.1 hd
    rw [lookup_cons_eq]
    rcases List.mem_cons.1 h with rfl | h
    · simp
    · have hne : name ≠ entry.1 := by
        rintro rfl
        exact hentry (List.mem_map.2 ⟨_, h, rfl⟩)
      rw [if_neg hne]
      exact ih hrest h

/-- Where no name is repeated, the order of the entries does not matter. -/
theorem lookup_reverse {entries : List (String × α)} (hd : (entries.map Prod.fst).Nodup)
    (name : String) : entries.reverse.lookup name = entries.lookup name := by
  have hr : (entries.reverse.map Prod.fst).Nodup := by
    rw [List.map_reverse]
    exact List.nodup_reverse.2 hd
  cases h : entries.lookup name with
  | none =>
    rw [lookup_eq_none_iff_notMem] at h ⊢
    simpa using h
  | some value => exact lookup_of_mem hr (List.mem_reverse.2 (mem_of_lookup h))

/-- Entries kept or dropped by their names are found if their names are kept. -/
theorem lookup_filter (keep : String → Bool) (entries : List (String × α)) (name : String) :
    (entries.filter fun entry => keep entry.1).lookup name =
      if keep name then entries.lookup name else none := by
  induction entries with
  | nil => simp
  | cons entry rest ih =>
    rw [lookup_cons_eq, List.filter_cons]
    by_cases hn : name = entry.1
    · subst hn
      cases hk : keep entry.1
      · simp [hk, ih]
      · simp [lookup_cons_eq]
    · cases hk : keep entry.1
      · simp [hn, ih]
      · simp [hn, ih, lookup_cons_eq]

/-- Values replaced according to their names are found replaced. -/
theorem lookup_map {β : Type} (f : String → α → β) (entries : List (String × α)) (name : String) :
    (entries.map fun entry => (entry.1, f entry.1 entry.2)).lookup name =
      (entries.lookup name).map (f name) := by
  induction entries with
  | nil => rfl
  | cons entry rest ih =>
    rw [List.map_cons, lookup_cons_eq, lookup_cons_eq, ih]
    by_cases hn : name = entry.1
    · rw [if_pos hn, if_pos hn, hn, Option.map_some]
    · rw [if_neg hn, if_neg hn]

/-- Writing entries one after another: of a name the last one counts, else what was there before.
Stated for any container whose insertion changes the look-up of one name. -/
theorem find_foldl_insert {M : Type} (find : M → String → Option α)
    (insert : M → String → α → M)
    (hinsert : ∀ m key value name,
      find (insert m key value) name = if name = key then some value else find m name)
    (entries : List (String × α)) (m : M) (name : String) :
    find (entries.foldl (fun m entry => insert m entry.1 entry.2) m) name =
      (entries.reverse.lookup name).or (find m name) := by
  induction entries generalizing m with
  | nil => rfl
  | cons entry rest ih =>
    rw [List.foldl_cons, ih, hinsert, List.reverse_cons, List.lookup_append, lookup_cons_eq,
      List.lookup_nil, Option.or_assoc]
    congr 1
    split <;> simp

end Concord
