import Concord.Json.Basic
import Concord.Map.Ordered

/-!
# Reading JSON text

The grammar is strict: no comments, no trailing commas, no byte order mark, no control characters
inside quotes, and at most 127 brackets open at once. A reading function takes what is left of the
text and answers with the thing read and the rest, or with `none` where the text is not JSON. A name
that an object repeats keeps its first position and its last value.
-/

namespace Concord.Json.Reader

/-- What a reading function answers: the thing read and the text after it. -/
abbrev Reading (α : Type) := Option (α × List Char)

/-- Whether a character may stand between tokens. -/
def isBlank (c : Char) : Bool := c = ' ' || c = '\n' || c = '\t' || c = '\r'

/-- The text without leading blanks. -/
def skipBlanks (text : List Char) : List Char := text.dropWhile isBlank

/-- The text after an expected beginning. -/
def expect : List Char → List Char → Option (List Char)
  | [], text => some text
  | c :: word, d :: text => if c = d then expect word text else none
  | _ :: _, [] => none

/-! ## Texts -/

/-- The value of a digit in base sixteen. -/
def hexDigit? (c : Char) : Option Nat :=
  if c.isDigit then some (c.toNat - '0'.toNat)
  else if 'a' ≤ c && c ≤ 'f' then some (c.toNat - 'a'.toNat + 10)
  else if 'A' ≤ c && c ≤ 'F' then some (c.toNat - 'A'.toNat + 10)
  else none

/-- The value of four digits in base sixteen. -/
def hexUnit? (a b c d : Char) : Option Nat := do
  return (((← hexDigit? a) * 16 + (← hexDigit? b)) * 16 + (← hexDigit? c)) * 16 + (← hexDigit? d)

/-- The character that a one-letter escape stands for. -/
def shortEscape? : Char → Option Char
  | '"' => some '"'
  | '\\' => some '\\'
  | '/' => some '/'
  | 'b' => some '\x08'
  | 'f' => some '\x0c'
  | 'n' => some '\n'
  | 'r' => some '\r'
  | 't' => some '\t'
  | _ => none

/-- Whether a unit of sixteen bits opens a pair that encodes one character. -/
def isHighSurrogate (n : Nat) : Bool := 0xD800 ≤ n && n ≤ 0xDBFF

/-- Whether a unit of sixteen bits closes a pair that encodes one character. -/
def isLowSurrogate (n : Nat) : Bool := 0xDC00 ≤ n && n ≤ 0xDFFF

/-- The character that a pair of units encodes. -/
def joinSurrogates (high low : Nat) : Char :=
  Char.ofNat (0x10000 + (high - 0xD800) * 0x400 + (low - 0xDC00))

/-- A reading with one more character in front of the characters read. -/
def consChar (c : Char) (r : Reading (List Char)) : Reading (List Char) :=
  r.map fun (s, rest) => (c :: s, rest)

/-- The characters of a text up to its closing quote. -/
def stringBody : List Char → Reading (List Char)
  | [] => none
  | ['\\'] => none
  | '"' :: rest => some ([], rest)
  | '\\' :: 'u' :: a :: b :: c :: d :: rest =>
    match hexUnit? a b c d with
    | none => none
    | some high =>
      if isHighSurrogate high then
        match rest with
        | '\\' :: 'u' :: e :: f :: g :: h :: rest =>
          match hexUnit? e f g h with
          | none => none
          | some low =>
            if isLowSurrogate low then consChar (joinSurrogates high low) (stringBody rest)
            else none
        | _ => none
      else if isLowSurrogate high then none
      else consChar (Char.ofNat high) (stringBody rest)
  | '\\' :: c :: rest => (shortEscape? c).bind fun c => consChar c (stringBody rest)
  | c :: rest => if c.toNat < 32 then none else consChar c (stringBody rest)

/-- A text in quotes. -/
def string : List Char → Reading String
  | '"' :: rest => (stringBody rest).map fun (s, rest) => (String.ofList s, rest)
  | _ => none

/-! ## Numbers -/

/-- The leading decimal digits and the rest. -/
def digits (text : List Char) : List Char × List Char :=
  (text.takeWhile Char.isDigit, text.dropWhile Char.isDigit)

/-- The natural number that digits denote. -/
def digitsValue (ds : List Char) : Nat := ds.foldl (fun n c => n * 10 + (c.toNat - '0'.toNat)) 0

/-- A significand continued by digits as long as it fits into 64 bits, and the number of digits that
were left out. -/
def extend (significand : Nat) : List Char → Nat × Nat
  | [] => (significand, 0)
  | d :: ds =>
    let next := significand * 10 + (d.toNat - '0'.toNat)
    if next < UInt64.size then extend next ds else (significand, ds.length + 1)

/-- The double that the parts of a number denote: as many digits as fit into 64 bits, scaled by a
power of ten in the arithmetic of doubles. -/
def doubleOf (whole fraction : List Char) (power : Int) : Option Binary64 :=
  let (s, droppedWhole) := extend 0 whole
  let (s, droppedFraction) := extend s fraction
  let used : Int := (fraction.length : Int) - droppedFraction
  (Binary64.ofRatio false s 1).bind (·.scaleByTen (power + droppedWhole - used))

/-- The number with the given sign and digits, an integer if it has neither fraction nor exponent
and fits. -/
def integerOf (negative : Bool) (whole : List Char) : Option JsonNumber :=
  let n := digitsValue whole
  if !negative && n < UInt64.size then some (.natural n.toUInt64)
  else if negative && n ≠ 0 && n ≤ UInt64.size / 2 then some (.negative n.toUInt64)
  else
    (doubleOf whole [] 0).map fun x => .double (if negative then x.negate else x)

/-- The fraction of a number, if one follows: a point and at least one digit. -/
def fraction : List Char → Reading (Option (List Char))
  | '.' :: rest =>
    let (ds, rest) := digits rest
    if ds.isEmpty then none else some (some ds, rest)
  | text => some (none, text)

/-- The exponent of a number, if one follows: a letter, perhaps a sign, and at least one digit. -/
def exponent : List Char → Reading (Option Int)
  | c :: rest =>
    if c = 'e' || c = 'E' then
      let (negative, rest) :=
        match rest with
        | '+' :: rest => (false, rest)
        | '-' :: rest => (true, rest)
        | rest => (false, rest)
      let (ds, rest) := digits rest
      if ds.isEmpty then none
      else
        let n : Int := digitsValue ds
        some (some (if negative then -n else n), rest)
    else some (none, c :: rest)
  | [] => some (none, [])

/-- A number: a zero stands alone before the point. -/
def number (text : List Char) : Option (JsonNumber × List Char) := do
  let (negative, text) :=
    match text with
    | '-' :: rest => (true, rest)
    | text => (false, text)
  let (whole, text) := digits text
  if whole.isEmpty || (whole.head? = some '0' && whole.length ≠ 1) then none
  else
    let (part, text) ← fraction text
    let (power, text) ← exponent text
    match part, power with
    | none, none => (integerOf negative whole).map (·, text)
    | _, _ =>
      let x ← doubleOf whole (part.getD []) (power.getD 0)
      return (.double (if negative then x.negate else x), text)

/-! ## Values -/

/-- Elements separated by commas up to a closing bracket, at least one. At most `fuel` elements are
read. -/
def separated {α : Type} (closing : Char) (element : List Char → Reading α) :
    Nat → List Char → Option (List α × List Char)
  | 0, _ => none
  | fuel + 1, text => do
    let (first, text) ← element (skipBlanks text)
    match skipBlanks text with
    | c :: rest =>
      if c = ',' then
        let (more, rest) ← separated closing element fuel rest
        return (first :: more, rest)
      else if c = closing then return ([first], rest)
      else none
    | [] => none

/-- The elements after an opening bracket, up to the closing one. -/
def bracketed {α : Type} (closing : Char) (element : List Char → Reading α)
    (text : List Char) : Reading (List α) :=
  match skipBlanks text with
  | c :: rest =>
    if c = closing then some ([], rest)
    else separated closing element (rest.length + 1) (c :: rest)
  | [] => none

/-- A name, a colon and a value. -/
def field {α : Type} (value : List Char → Reading α) (text : List Char) :
    Option ((String × α) × List Char) := do
  let (name, text) ← string text
  match skipBlanks text with
  | ':' :: rest =>
    let (v, rest) ← value (skipBlanks rest)
    return ((name, v), rest)
  | _ => none

/-- A value inside which at most `depth` brackets may be open at once. -/
def value : Nat → List Char → Reading Json
  | depth, text =>
    match text with
    | 'n' :: _ => (expect "null".toList text).map (.null, ·)
    | 't' :: _ => (expect "true".toList text).map (.bool true, ·)
    | 'f' :: _ => (expect "false".toList text).map (.bool false, ·)
    | '"' :: _ => (string text).map fun (s, rest) => (.string s, rest)
    | '[' :: rest =>
      match depth with
      | 0 => none
      | depth + 1 =>
        (bracketed ']' (value depth) rest).map fun (items, rest) => (.array items, rest)
    | '\x7b' :: rest =>
      match depth with
      | 0 => none
      | depth + 1 =>
        (bracketed '\x7d' (field (value depth)) rest).map fun (fields, rest) =>
          (.object (OrderedMap.ofList fields).entries, rest)
    | _ => (number text).map fun (n, rest) => (.number n, rest)

/-- How many brackets may be open at once. -/
def nestingLimit : Nat := 127

end Reader

/-- The value that a text denotes, or `none` if the text is not JSON. -/
def read? (text : String) : Option Json :=
  match Reader.value Reader.nestingLimit (Reader.skipBlanks text.toList) with
  | some (v, rest) => if (Reader.skipBlanks rest).isEmpty then some v else none
  | none => none

end Concord.Json
