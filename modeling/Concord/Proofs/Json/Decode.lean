import Concord.Json.Decode
import Concord.Proofs.Map.Ordered
import Concord.Proofs.Map.Sorted

/-!
# Reading back what is written

A reader undoes a writer if it gives back every value from its written form. Whatever undoes the
writer of the items also undoes the writer of a list or of a map of them: lists keep their order,
maps in key order have no other one, and maps in written order keep theirs.
-/

namespace Concord.Json

variable {α : Type} {read : Json → Except DecodeError α} {write : α → Json}

/-- A list is read back if its items are. -/
theorem decodeItems_map (h : ∀ a, read (write a) = .ok a) (items : List α) :
    decodeItems read (items.map write) = .ok items := by
  induction items with
  | nil => rfl
  | cons a rest ih =>
    rw [List.map_cons, decodeItems, h a, ih]
    rfl

theorem decodeBool_bool (b : Bool) : decodeBool (.bool b) = .ok b := rfl

theorem decodeStrings_strings (texts : List String) :
    decodeStrings (strings texts) = .ok texts := by
  have hitems : decodeItems decodeString (texts.map .string) = .ok texts :=
    decodeItems_map (fun _ : String => rfl) texts
  exact hitems

theorem decodeEntries_map (h : ∀ a, read (write a) = .ok a) (entries : List (String × α)) :
    decodeEntries read (entries.map fun entry => (entry.1, write entry.2)) = .ok entries := by
  induction entries with
  | nil => rfl
  | cons entry rest ih =>
    rw [List.map_cons, decodeEntries, h entry.2, ih]
    rfl

theorem decodeSortedMap_ofSortedMap (h : ∀ a, read (write a) = .ok a) (m : SortedMap α) :
    (ofSortedMap write m).decodeSortedMap read = .ok m := by
  have hentries := decodeEntries_map h m.entries
  show (do return SortedMap.ofList (← decodeEntries read (m.entries.map _))) = Except.ok m
  rw [hentries]
  exact congrArg Except.ok m.ofList_entries

/-- A map with an order is read back with that order. -/
theorem decodeObject_ofOrderedMap (m : OrderedMap Json) : (ofOrderedMap m).decodeObject = .ok m :=
  congrArg Except.ok m.ofList_entries

end Concord.Json
