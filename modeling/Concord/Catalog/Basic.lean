import Concord.Json.Decode

/-!
# Rule catalogs

A catalog lists the rules that a linter knows and says of each whether it can repair what it finds.
A rule that is not listed may or may not be fixable; only a listed one without a fix is known to be
unfixable.
-/

namespace Concord

/-- How a rule repairs what it finds. -/
inductive FixKind where
  /-- By changing code. -/
  | code
  /-- By changing blanks. -/
  | whitespace
  /-- In a way that the catalog does not state. -/
  | unspecified
deriving DecidableEq, Repr, Inhabited

namespace FixKind

/-- The word for a kind. -/
def name : FixKind → String
  | .code => "code"
  | .whitespace => "whitespace"
  | .unspecified => "unspecified"

/-- The kind that a text stands for. -/
def ofText (text : String) : FixKind :=
  if text = "code" then .code
  else if text = "whitespace" then .whitespace
  else .unspecified

/-- The kind that a fixable flag states: none for `null`, `false` and the empty text. -/
def decodeFlag : Json → Except DecodeError (Option FixKind)
  | .null => .ok none
  | .bool b => .ok (if b then some .unspecified else none)
  | .string s => .ok (if s = "" then none else some (ofText s))
  | v => .error (.unknownFlag v)

end FixKind

/-- What a catalog says about a rule. -/
structure RuleMeta where
  /-- How the rule repairs what it finds, if it does. -/
  fix : Option FixKind := none
deriving DecidableEq, Repr, Inhabited

namespace RuleMeta

/-- Whether the rule repairs what it finds. -/
def isFixable (m : RuleMeta) : Bool := m.fix.isSome

/-- The description with one field read from its value; unknown fields change nothing. -/
def readField (m : RuleMeta) (name : String) (v : Json) : Except DecodeError RuleMeta :=
  match name with
  | "fixable" => do return { m with fix := ← FixKind.decodeFlag v }
  | _ => .ok m

/-- The description that a document gives: an object, or a list of at most the flag. -/
def decode : Json → Except DecodeError RuleMeta
  | .object fields => fields.foldlM (fun m field => m.readField field.1 field.2) {}
  | .array [] => .ok {}
  | .array (flag :: rest) => do
    let fix ← FixKind.decodeFlag flag
    if rest.isEmpty then return { fix } else throw .wrongShape
  | _ => .error .wrongShape

/-- The written form of a description. -/
def toJson (m : RuleMeta) : Json :=
  .object [("fixable", Json.orNull (m.fix.map fun kind => .string kind.name))]

end RuleMeta

/-- The rules that a linter knows, by name. -/
abbrev Catalog := SortedMap RuleMeta

namespace Catalog

/-- The catalog for linters that cannot list their rules: two rules known to be unfixable. -/
def fallback : Catalog := (SortedMap.empty.insert "global-require" {}).insert "no-with" {}

/-- Whether a rule is listed and repairs nothing. -/
def isKnownUnfixable (c : Catalog) (name : String) : Bool :=
  match c.find? name with
  | some m => !m.isFixable
  | none => false

/-- The catalog that a document describes. -/
def decode (v : Json) : Except DecodeError Catalog := v.decodeSortedMap RuleMeta.decode

/-- The written form of a catalog. -/
def toJson (c : Catalog) : Json := Json.ofSortedMap RuleMeta.toJson c

end Catalog

end Concord
