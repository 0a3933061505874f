/-!
# Maps in key order

A `SortedMap` keeps its entries in strictly increasing order of their names, compared character by
character. Two sorted maps with the same look-ups have the same entries.
-/

namespace Concord

/-- A map from names to values whose entries are listed in the order of the names. -/
structure SortedMap (α : Type) where
  /-- The entries in increasing order of their names. -/
  entries : List (String × α)
  /-- The names increase strictly. -/
  sorted : entries.Pairwise fun a b => a.1 < b.1

namespace SortedMap

variable {α : Type}

/-- Sorted entries with the value at `key` replaced or added. -/
def write (key : String) (value : α) : List (String × α) → List (String × α)
  | [] => [(key, value)]
  | entry :: rest =>
    if key < entry.1 then (key, value) :: entry :: rest
    else if key = entry.1 then (key, value) :: rest
    else entry :: write key value rest

/-- An entry of the written list is the new one or an old one. -/
theorem mem_write {key : String} {value : α} {entries : List (String × α)} {e : String × α}
    (h : e ∈ write key value entries) : e = (key, value) ∨ e ∈ entries := by
  induction entries with
  | nil => simpa [write] using h
  | cons entry rest ih =>
    rw [write] at h
    split at h
    · simpa using h
    · split at h
      · rcases List.mem_cons.1 h with h | h
        · exact .inl h
        · exact .inr (List.mem_cons_of_mem _ h)
      · rcases List.mem_cons.1 h with h | h
        · exact .inr (h ▸ List.mem_cons_self)
        · exact (ih h).imp_right (List.mem_cons_of_mem _)

/-- Writing keeps the entries sorted. -/
theorem sorted_write (key : String) (value : α) {entries : List (String × α)}
    (h : entries.Pairwise fun a b => a.1 < b.1) :
    (write key value entries).Pairwise fun a b => a.1 < b.1 := by
  induction entries with
  | nil => simp [write]
  | cons entry rest ih =>
    obtain ⟨hhead, hrest⟩ := List.pairwise_cons.1 h
    rw [write]
    split
    · next hlt =>
      refine List.pairwise_cons.2 ⟨?_, h⟩
      intro e he
      rcases List.mem_cons.1 he with rfl | he
      · exact hlt
      · exact String.lt_trans hlt (hhead e he)
    · split
      · next heq => exact List.pairwise_cons.2 ⟨fun e he => heq ▸ hhead e he, hrest⟩
      · next hnlt hne =>
        refine List.pairwise_cons.2 ⟨?_, ih hrest⟩
        intro e he
        rcases mem_write he with rfl | he
        · grind
        · exact hhead e he

/-- The map without entries. -/
def empty : SortedMap α := ⟨[], List.Pairwise.nil⟩

instance : Inhabited (SortedMap α) := ⟨empty⟩

/-- The map with `value` at `key`. -/
def insert (m : SortedMap α) (key : String) (value : α) : SortedMap α :=
  ⟨write key value m.entries, sorted_write key value m.sorted⟩

/-- The value at a name. -/
def find? (m : SortedMap α) (key : String) : Option α := m.entries.lookup key

/-- The names in order. -/
def keys (m : SortedMap α) : List String := m.entries.map Prod.fst

/-- How many entries the map has. -/
def size (m : SortedMap α) : Nat := m.entries.length

/-- Whether the map has no entries. -/
def isEmpty (m : SortedMap α) : Bool := m.entries.isEmpty

/-- The map with a list of entries written to it one after another. -/
def insertAll (m : SortedMap α) (entries : List (String × α)) : SortedMap α :=
  entries.foldl (fun m entry => m.insert entry.1 entry.2) m

/-- The map that a list of entries describes; of a repeated name the last value counts. -/
def ofList (entries : List (String × α)) : SortedMap α := empty.insertAll entries

/-- The entries of `upper` written over those of `lower`. -/
def overlay (lower upper : SortedMap α) : SortedMap α := lower.insertAll upper.entries

/-- The entries of `upper` written over those of `lower`, where a name is in both as `combine` of
the upper and the lower value. -/
def overlayWith (combine : α → α → α) (lower upper : SortedMap α) : SortedMap α :=
  upper.entries.foldl
    (fun m entry =>
      m.insert entry.1 <|
        match m.find? entry.1 with
        | some old => combine entry.2 old
        | none => entry.2)
    lower

/-- The map with every value replaced according to its name. -/
def mapEntries {β : Type} (f : String → α → β) (m : SortedMap α) : SortedMap β :=
  ⟨m.entries.map fun entry => (entry.1, f entry.1 entry.2), by
    rw [List.pairwise_map]
    exact m.sorted⟩

end SortedMap

end Concord
