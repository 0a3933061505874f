import Concord.Json.Decode

/-!
# Declared globals

A configuration declares what a program may do with each global name.
-/

namespace Concord

/-- What a program may do with a global name. -/
inductive GlobalAccess where
  /-- Read it. -/
  | readonly
  /-- Read and write it. -/
  | writable
  /-- Nothing; the declaration is switched off. -/
  | off
deriving DecidableEq, Repr, Inhabited

namespace GlobalAccess

/-- The word for an access. -/
def name : GlobalAccess → String
  | .readonly => "readonly"
  | .writable => "writable"
  | .off => "off"

/-- The access that a word names; there are several words for two of them. -/
def ofName? (name : String) : Option GlobalAccess :=
  if name = "writable" || name = "writeable" || name = "true" then some .writable
  else if name = "readonly" || name = "readable" || name = "false" then some .readonly
  else if name = "off" then some .off
  else none

/-- The access that a configured value stands for. -/
def decode (v : Json) : Except DecodeError GlobalAccess :=
  match v with
  | .bool true => .ok .writable
  | .bool false => .ok .readonly
  | .string s =>
    match ofName? s with
    | some access => .ok access
    | none => .error (.unknownAccess v)
  | _ => .error (.unknownAccess v)

/-- The written form of an access. -/
def toJson (a : GlobalAccess) : Json := .string a.name

end GlobalAccess

end Concord
