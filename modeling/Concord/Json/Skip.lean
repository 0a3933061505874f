import Concord.Json.Reader

/-!
# Passing over JSON values

A value that nobody will look at is passed over without being built. Its grammar is checked, but not
what the values in it amount to: numbers may be out of range, surrogates may stand alone, and
brackets may nest without limit.
-/

namespace Concord.Json.Reader

/-- The text after the closing quote of a text that nobody looks at. -/
def skipStringBody : List Char → Option (List Char)
  | [] => none
  | ['\\'] => none
  | '"' :: rest => some rest
  | '\\' :: 'u' :: a :: b :: c :: d :: rest => (hexUnit? a b c d).bind fun _ => skipStringBody rest
  | '\\' :: c :: rest => (shortEscape? c).bind fun _ => skipStringBody rest
  | c :: rest => if c.toNat < 32 then none else skipStringBody rest

/-- The text after a text in quotes. -/
def skipString : List Char → Option (List Char)
  | '"' :: rest => skipStringBody rest
  | _ => none

/-- The text after a number. -/
def skipNumber (text : List Char) : Option (List Char) := do
  let (whole, text) := digits (if text.head? = some '-' then text.tail else text)
  if whole.isEmpty || (whole.head? = some '0' && whole.length ≠ 1) then none
  else
    let (_, text) ← fraction text
    let (_, text) ← exponent text
    return text

mutual

/-- The text after a value; `fuel` bounds the number of values and names in it. -/
def skipValue : Nat → List Char → Option (List Char)
  | 0, _ => none
  | fuel + 1, text =>
    match skipBlanks text with
    | 'n' :: rest => expect "ull".toList rest
    | 't' :: rest => expect "rue".toList rest
    | 'f' :: rest => expect "alse".toList rest
    | '"' :: rest => skipStringBody rest
    | '[' :: rest =>
      match skipBlanks rest with
      | ']' :: rest => some rest
      | rest => skipItems fuel rest
    | '\x7b' :: rest =>
      match skipBlanks rest with
      | '\x7d' :: rest => some rest
      | rest => skipFields fuel rest
    | text => skipNumber text

/-- The text after the items of a list and its closing bracket. -/
def skipItems : Nat → List Char → Option (List Char)
  | 0, _ => none
  | fuel + 1, text => do
    match skipBlanks (← skipValue fuel text) with
    | ',' :: rest => skipItems fuel rest
    | ']' :: rest => return rest
    | _ => none

/-- The text after the fields of an object and its closing bracket. -/
def skipFields : Nat → List Char → Option (List Char)
  | 0, _ => none
  | fuel + 1, text => do
    match skipBlanks (← skipString (skipBlanks text)) with
    | ':' :: rest =>
      match skipBlanks (← skipValue fuel rest) with
      | ',' :: rest => skipFields fuel rest
      | '\x7d' :: rest => return rest
      | _ => none
    | _ => none

end

/-- The text after a value that nobody looks at. -/
def skip (text : List Char) : Option (List Char) := skipValue (text.length + 1) text

end Concord.Json.Reader
