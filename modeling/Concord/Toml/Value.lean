import Concord.Json.Basic
import Concord.Map.Sorted

/-!
# TOML values

A TOML document is a table. As JSON, its tables list their entries in the order of the names, a
point in time becomes an object with its text, and a number that is not finite becomes `null`.
-/

namespace Concord.Toml

/-- A value in a TOML document. -/
inductive Value where
  /-- A text. -/
  | string (s : String)
  /-- An integer of 64 bits. -/
  | integer (n : JsonNumber)
  /-- A double; none if it is not finite. -/
  | double (x : Option Binary64)
  /-- A truth value. -/
  | bool (b : Bool)
  /-- A date, a time or both, in its plain form. -/
  | moment (text : String)
  /-- A list of values. -/
  | array (items : List Value)
  /-- Named values, no name twice. -/
  | table (entries : List (String × Value))
deriving Inhabited

namespace Value

/-- The name under which the text of a point in time is kept. -/
def momentField : String := "$__toml_private_datetime"

mutual

/-- The JSON value of a value. -/
def toJson : Value → Json
  | .string s => .string s
  | .integer n => .number n
  | .double (some x) => .number (.double x)
  | .double none => .null
  | .bool b => .bool b
  | .moment text => .object [(momentField, .string text)]
  | .array items => .array (itemsToJson items)
  | .table entries => .object (SortedMap.ofList (entriesToJson entries)).entries

/-- The JSON values of items. -/
def itemsToJson : List Value → List Json
  | [] => []
  | v :: rest => toJson v :: itemsToJson rest

/-- The JSON values of named values. -/
def entriesToJson : List (String × Value) → List (String × Json)
  | [] => []
  | (name, v) :: rest => (name, toJson v) :: entriesToJson rest

end

end Value

end Concord.Toml
