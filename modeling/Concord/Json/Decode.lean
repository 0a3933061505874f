import Concord.Json.Writer
import Concord.Map.Ordered
import Concord.Map.Sorted

/-!
# Reading domain values from JSON

`DecodeError` lists the causes for which a JSON value is refused. The readers below take a value of
a given shape apart; those that read several parts do so in the order of the document and report
the first part that is refused.
-/

namespace Concord

/-- Why a JSON value does not describe what was asked for. -/
inductive DecodeError where
  /-- A rule names a severity that does not exist. -/
  | unknownSeverity (value : Json)
  /-- A rule is an empty list. -/
  | missingSeverity
  /-- A global names an access that does not exist. -/
  | unknownAccess (value : Json)
  /-- A rule's fixable flag is neither a text nor a truth value. -/
  | unknownFlag (value : Json)
  /-- Formatter options are not a table. -/
  | notATable
  /-- A value has another shape than the one its place asks for. -/
  | wrongShape
deriving Inhabited

/-- What there is to say about a cause; a wrong shape has no words of its own. -/
def DecodeError.message? : DecodeError → Option String
  | .unknownSeverity value => some ("invalid rule severity: " ++ value.compact)
  | .missingSeverity => some "rule array must start with a severity"
  | .unknownAccess value => some ("invalid global access: " ++ value.compact)
  | .unknownFlag value => some ("invalid fixable flag: " ++ value.compact)
  | .notATable => some "expected a table of options"
  | .wrongShape => none

namespace Json

/-- A value that has been found, or the complaint that the shape is wrong. -/
def orWrongShape {α : Type} : Option α → Except DecodeError α
  | some a => .ok a
  | none => .error .wrongShape

/-- The truth value. -/
def decodeBool (v : Json) : Except DecodeError Bool := orWrongShape v.bool?

/-- The text. -/
def decodeString (v : Json) : Except DecodeError String := orWrongShape v.string?

/-- The items of a list, each read by `item`. -/
def decodeItems {α : Type} (item : Json → Except DecodeError α) :
    List Json → Except DecodeError (List α)
  | [] => .ok []
  | v :: rest => do
    let a ← item v
    return a :: (← decodeItems item rest)

/-- The list, each item read by `item`. -/
def decodeList {α : Type} (item : Json → Except DecodeError α) (v : Json) :
    Except DecodeError (List α) := do
  decodeItems item (← orWrongShape v.array?)

/-- The texts of a list. -/
def decodeStrings (v : Json) : Except DecodeError (List String) := decodeList decodeString v

/-- Nothing for `null`, else the value read by `item`. -/
def decodeOptional {α : Type} (item : Json → Except DecodeError α) (v : Json) :
    Except DecodeError (Option α) :=
  if v.isNull then .ok none else (item v).map some

/-- The fields of an object, each value read by `item`. -/
def decodeEntries {α : Type} (item : Json → Except DecodeError α) :
    List (String × Json) → Except DecodeError (List (String × α))
  | [] => .ok []
  | (name, v) :: rest => do
    let a ← item v
    return (name, a) :: (← decodeEntries item rest)

/-- The object as a map in the order of its names, each value read by `item`. -/
def decodeSortedMap {α : Type} (item : Json → Except DecodeError α) (v : Json) :
    Except DecodeError (SortedMap α) := do
  return SortedMap.ofList (← decodeEntries item (← orWrongShape v.object?))

/-- The object as a map in written order. -/
def decodeObject (v : Json) : Except DecodeError (OrderedMap Json) :=
  (orWrongShape v.object?).map OrderedMap.ofList

/-- A sorted map as an object. -/
def ofSortedMap {α : Type} (item : α → Json) (m : SortedMap α) : Json :=
  .object (m.entries.map fun entry => (entry.1, item entry.2))

/-- A map in written order as an object. -/
def ofOrderedMap (m : OrderedMap Json) : Json := .object m.entries

end Json

end Concord
