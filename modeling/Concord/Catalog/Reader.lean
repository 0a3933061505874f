import Concord.Catalog.Basic
import Concord.Json.Skip
import Concord.Lookup.Failure

/-!
# Reading the text of a catalog

A catalog is read straight from its text, front to back. The first trouble counts, be it with the
text or with what the text says. A rule that is listed twice has its last description; a description
that states the flag twice is refused, and whatever else it states is passed over.
-/

namespace Concord.Catalog.Reader

open Concord.Json.Reader

/-- A reading of JSON text, its failure being that of the text. -/
def lift {α : Type} : Option α → Except ParseFailure α
  | some a => .ok a
  | none => .error .malformed

/-- A name and the colon after it. -/
def nameAndColon (text : List Char) : Except ParseFailure (String × List Char) := do
  let (name, text) ← lift (string (skipBlanks text))
  match skipBlanks text with
  | ':' :: rest => return (name, rest)
  | _ => throw .malformed

/-- Fields up to the closing bracket, each read by `field`, which takes what the fields before it
amounted to; `fuel` bounds their number. -/
def fields {σ : Type} (field : σ → String → List Char → Except ParseFailure (σ × List Char)) :
    Nat → σ → List Char → Except ParseFailure (σ × List Char)
  | 0, _, _ => .error .malformed
  | fuel + 1, state, text => do
    let (name, text) ← nameAndColon text
    let (state, text) ← field state name text
    match skipBlanks text with
    | ',' :: rest => fields field fuel state rest
    | '\x7d' :: rest => return (state, rest)
    | _ => throw .malformed

/-- The fields after an opening bracket, up to the closing one. -/
def object {σ : Type} (field : σ → String → List Char → Except ParseFailure (σ × List Char))
    (start : σ) (text : List Char) : Except ParseFailure (σ × List Char) :=
  match skipBlanks text with
  | '\x7d' :: rest => .ok (start, rest)
  | text => fields field (text.length + 1) start text

/-- A fixable flag. Two brackets are open around it. -/
def flag (text : List Char) : Except ParseFailure (Option FixKind × List Char) := do
  let (v, text) ← lift (value (nestingLimit - 2) (skipBlanks text))
  match FixKind.decodeFlag v with
  | .ok fix => return (fix, text)
  | .error cause => throw (.refused cause)

/-- One field of a rule's description; the state is the flag if it has been stated. -/
def metaField (stated : Option (Option FixKind)) (name : String) (text : List Char) :
    Except ParseFailure (Option (Option FixKind) × List Char) := do
  if name = "fixable" then
    if stated.isSome then throw .malformed
    else
      let (fix, text) ← flag text
      return (some fix, text)
  else
    let text ← lift (skip text)
    return (stated, text)

/-- The description of a rule: an object, or a list of at most the flag. -/
def ruleMeta (text : List Char) : Except ParseFailure (RuleMeta × List Char) :=
  match skipBlanks text with
  | '\x7b' :: rest => do
    let (stated, rest) ← object metaField none rest
    return (⟨stated.getD none⟩, rest)
  | '[' :: rest =>
    match skipBlanks rest with
    | ']' :: rest => .ok ({}, rest)
    | rest => do
      let (fix, rest) ← flag rest
      match skipBlanks rest with
      | ']' :: rest => return (⟨fix⟩, rest)
      | _ => throw .malformed
  | _ => .error .malformed

/-- One rule of a catalog. -/
def ruleField (catalog : Catalog) (name : String) (text : List Char) :
    Except ParseFailure (Catalog × List Char) := do
  let (description, text) ← ruleMeta text
  return (catalog.insert name description, text)

end Reader

/-- The catalog that a text describes. -/
def read (text : String) : Except ParseFailure Catalog :=
  match Json.Reader.skipBlanks text.toList with
  | '\x7b' :: rest => do
    let (catalog, rest) ← Reader.object Reader.ruleField .empty rest
    if (Json.Reader.skipBlanks rest).isEmpty then return catalog else throw .malformed
  | _ => .error .malformed

end Concord.Catalog
