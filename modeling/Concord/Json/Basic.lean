import Concord.Number.Binary64

/-!
# JSON values

Configuration, rule options and formatter options are JSON. A number keeps the kind it was written
as: an integer of 64 bits with or without a minus sign, or a double. The fields of an object stand
in the order in which they were written, and readers leave no name twice.
-/

namespace Concord

/-- A number, with the kind of its written form. -/
inductive JsonNumber where
  /-- An integer from `0` to `2 ^ 64 - 1`. -/
  | natural (n : UInt64)
  /-- The integer `-magnitude`, from `-2 ^ 63` to `-1`. -/
  | negative (magnitude : UInt64)
  /-- Any other number, a fraction such as `2.0` included. -/
  | double (x : Binary64)
deriving DecidableEq, Repr

/-- A JSON value. -/
inductive Json where
  /-- The value `null`. -/
  | null
  /-- A truth value. -/
  | bool (b : Bool)
  /-- A number. -/
  | number (n : JsonNumber)
  /-- A text. -/
  | string (s : String)
  /-- A list of values. -/
  | array (items : List Json)
  /-- Named values in written order. -/
  | object (fields : List (String × Json))
deriving Inhabited

namespace Json

/-- The truth value, if it is one. -/
def bool? : Json → Option Bool
  | .bool b => some b
  | _ => none

/-- The text, if it is one. -/
def string? : Json → Option String
  | .string s => some s
  | _ => none

/-- The integer, if the value is written as one that is not negative. -/
def natural? : Json → Option UInt64
  | .number (.natural n) => some n
  | _ => none

/-- The integer, if the value is written as one below `2 ^ 32`. -/
def natural32? (v : Json) : Option UInt32 :=
  v.natural?.bind fun n => if n.toNat < UInt32.size then some n.toUInt32 else none

/-- The fields, if the value is an object. -/
def object? : Json → Option (List (String × Json))
  | .object fields => some fields
  | _ => none

/-- The items, if the value is a list. -/
def array? : Json → Option (List Json)
  | .array items => some items
  | _ => none

/-- The value of a field; other values than objects have no fields. -/
def field? (v : Json) (name : String) : Option Json := v.object?.bind (·.lookup name)

/-- Whether the value is `null`. -/
def isNull : Json → Bool
  | .null => true
  | _ => false

/-- Whether the value is an object or a list. -/
def isStructured : Json → Bool
  | .array _ | .object _ => true
  | _ => false

/-- A number that is a count. -/
def ofNat (n : Nat) : Json := .number (.natural n.toUInt64)

/-- A list of texts. -/
def strings (texts : List String) : Json := .array (texts.map .string)

/-- A value or `null`. -/
def orNull : Option Json → Json
  | some v => v
  | none => .null

end Json

end Concord
