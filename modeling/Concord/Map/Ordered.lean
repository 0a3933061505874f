/-!
# Maps in insertion order

An `OrderedMap` keeps its entries in the order in which their keys first appeared. Writing to a key
that is present changes the value in place; a new key goes to the end. No key occurs twice. Names
alone are gathered in the same way by `collect`.
-/

namespace Concord

/-- The items of `upper` that are not there yet, added to `lower` one after another. -/
def collect (lower upper : List String) : List String :=
  upper.foldl (fun all item => if all.contains item then all else all ++ [item]) lower

/-- A map from names to values that remembers the order in which names were first written. -/
structure OrderedMap (α : Type) where
  /-- The entries, oldest name first. -/
  entries : List (String × α)
  /-- No name occurs twice. -/
  nodup : (entries.map Prod.fst).Nodup

namespace OrderedMap

variable {α : Type}

/-- Entries with the value at `key` replaced, or with a new entry at the end. -/
def write (key : String) (value : α) : List (String × α) → List (String × α)
  | [] => [(key, value)]
  | entry :: rest =>
    if entry.1 = key then (key, value) :: rest else entry :: write key value rest

/-- Writing keeps the names and appends the one written if it is new. -/
theorem map_fst_write (key : String) (value : α) (entries : List (String × α)) :
    (write key value entries).map Prod.fst =
      if key ∈ entries.map Prod.fst then entries.map Prod.fst
      else entries.map Prod.fst ++ [key] := by
  induction entries with
  | nil => rfl
  | cons entry rest ih =>
    by_cases h : entry.1 = key
    · simp [write, h]
    · have h' : key ≠ entry.1 := fun e => h e.symm
      simp only [write, h, if_false, List.map_cons, ih, List.mem_cons, h', false_or]
      split <;> rfl

/-- Writing keeps names distinct. -/
theorem nodup_write (key : String) (value : α) {entries : List (String × α)}
    (h : (entries.map Prod.fst).Nodup) : ((write key value entries).map Prod.fst).Nodup := by
  rw [map_fst_write]
  split
  · exact h
  · next hk =>
    refine List.nodup_append.2 ⟨h, by simp, ?_⟩
    intro a ha b hb
    rw [List.mem_singleton] at hb
    exact fun e => hk (hb ▸ e ▸ ha)

/-- The map without entries. -/
def empty : OrderedMap α := ⟨[], List.nodup_nil⟩

instance : Inhabited (OrderedMap α) := ⟨empty⟩

/-- The map with `value` at `key`. -/
def insert (m : OrderedMap α) (key : String) (value : α) : OrderedMap α :=
  ⟨write key value m.entries, nodup_write key value m.nodup⟩

/-- The value at a name. -/
def find? (m : OrderedMap α) (key : String) : Option α := m.entries.lookup key

/-- Whether a name is present. -/
def contains (m : OrderedMap α) (key : String) : Bool := (m.find? key).isSome

/-- The names, oldest first. -/
def keys (m : OrderedMap α) : List String := m.entries.map Prod.fst

/-- How many entries the map has. -/
def size (m : OrderedMap α) : Nat := m.entries.length

/-- Whether the map has no entries. -/
def isEmpty (m : OrderedMap α) : Bool := m.entries.isEmpty

/-- The map with a list of entries written to it one after another. -/
def insertAll (m : OrderedMap α) (entries : List (String × α)) : OrderedMap α :=
  entries.foldl (fun m entry => m.insert entry.1 entry.2) m

/-- The map that a list of entries describes: of a repeated name the last value, at the position of
the first. -/
def ofList (entries : List (String × α)) : OrderedMap α := empty.insertAll entries

/-- The entries of `upper` written over those of `lower`. -/
def overlay (lower upper : OrderedMap α) : OrderedMap α := lower.insertAll upper.entries

end OrderedMap

end Concord
