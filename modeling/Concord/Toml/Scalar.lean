import Concord.Json.Reader
import Concord.Toml.Value

/-!
# TOML scalars

Texts come in four forms, with or without escapes and on one line or several. Numbers may have
underscores between digits and come in four bases. Dates and times follow the usual notation and are
checked against the calendar.
-/

namespace Concord.Toml

/-- What a reading function answers: the thing read and the text after it. -/
abbrev Reading (α : Type) := Option (α × List Char)

/-- Whether a character is a blank. -/
def isBlank (c : Char) : Bool := c = ' ' || c = '\t'

/-- Whether a character may stand in a comment or on a line of a text. -/
def isPrintable (c : Char) : Bool := c = '\t' || (32 ≤ c.toNat && c.toNat ≠ 127)

/-- The text after a line break, if there is one. -/
def afterNewline? : List Char → Option (List Char)
  | '\n' :: rest => some rest
  | '\r' :: '\n' :: rest => some rest
  | _ => none

/-! ## Texts -/

/-- What an escape of one letter stands for. -/
def shortEscape? : Char → Option Char
  | 'b' => some '\x08'
  | 't' => some '\t'
  | 'n' => some '\n'
  | 'f' => some '\x0c'
  | 'r' => some '\r'
  | 'e' => some '\x1b'
  | '"' => some '"'
  | '\\' => some '\\'
  | _ => none

/-- How many digits in base sixteen follow the letter of an escape. -/
def escapeWidth? : Char → Option Nat
  | 'x' => some 2
  | 'u' => some 4
  | 'U' => some 8
  | _ => none

/-- The character that digits in base sixteen number. -/
def numbered? (ds : List Char) : Option Char := do
  let n ← ds.foldlM (fun n d => (Json.Reader.hexDigit? d).map (n * 16 + ·)) 0
  if h : n.isValidChar then some (Char.ofNatAux n h) else none

/-- The character that an escape stands for. The text starts after the backslash. -/
def escape : List Char → Reading Char
  | [] => none
  | x :: rest =>
    match escapeWidth? x with
    | none => (shortEscape? x).map (·, rest)
    | some width =>
      let ds := rest.take width
      if ds.length = width then (numbered? ds).map (·, rest.drop width) else none

/-- The text after blanks and line breaks. -/
def skipSpace : Nat → List Char → List Char
  | 0, text => text
  | fuel + 1, text =>
    match text with
    | c :: rest =>
      if isBlank c then skipSpace fuel rest
      else
        match afterNewline? text with
        | some rest => skipSpace fuel rest
        | none => text
    | [] => []

/-- A reading with one more character in front of the characters read. -/
def consChar (c : Char) (r : Reading (List Char)) : Reading (List Char) :=
  r.map fun (s, rest) => (c :: s, rest)

/-- The characters up to the closing quote of a text on one line. -/
def lineBody (quote : Char) (escapes : Bool) : Nat → List Char → Reading (List Char)
  | 0, _ => none
  | fuel + 1, text =>
    match text with
    | [] => none
    | c :: rest =>
      if c = quote then some ([], rest)
      else if escapes && c = '\\' then
        (escape rest).bind fun (x, rest) => consChar x (lineBody quote escapes fuel rest)
      else if isPrintable c then consChar c (lineBody quote escapes fuel rest)
      else none

/-- The characters up to the three closing quotes of a text on several lines. Up to two more quotes
right before them belong to the text. A backslash at the end of a line takes the blanks and line
breaks after it away. -/
def blockBody (quote : Char) (escapes : Bool) : Nat → List Char → Reading (List Char)
  | 0, _ => none
  | fuel + 1, text =>
    match text with
    | [] => none
    | c :: rest =>
      if c = quote then
        let quotes := (text.takeWhile (· = quote)).length
        if quotes < 3 then
          consChar c (blockBody quote escapes fuel rest)
        else if quotes ≤ 5 then
          some (List.replicate (quotes - 3) quote, text.drop quotes)
        else none
      else if escapes && c = '\\' then
        match afterNewline? (rest.dropWhile isBlank) with
        | some rest => blockBody quote escapes fuel (skipSpace rest.length rest)
        | none => (escape rest).bind fun (x, rest) => consChar x (blockBody quote escapes fuel rest)
      else if isPrintable c then consChar c (blockBody quote escapes fuel rest)
      else
        (afterNewline? text).bind fun rest => consChar '\n' (blockBody quote escapes fuel rest)

/-- A text on one line, in double quotes with escapes or in single quotes without. -/
def lineString (text : List Char) : Reading String :=
  match text with
  | c :: rest =>
    if c = '"' || c = '\'' then
      (lineBody c (c = '"') text.length rest).map fun (s, rest) => (String.ofList s, rest)
    else none
  | [] => none

/-- A text in any of its forms. A line break right after three opening quotes is left out. -/
def string (text : List Char) : Reading String :=
  match text with
  | a :: b :: c :: rest =>
    if (a = '"' || a = '\'') && b = a && c = a then
      let rest := (afterNewline? rest).getD rest
      (blockBody a (a = '"') text.length rest).map fun (s, rest) => (String.ofList s, rest)
    else lineString text
  | _ => lineString text

/-! ## Numbers -/

/-- Digits without the underscores between them; each underscore has a digit on either side. -/
def withoutUnderscores (isDigit : Char → Bool) : List Char → Option (List Char)
  | [] => none
  | [c] => if isDigit c then some [c] else none
  | c :: '_' :: rest =>
    if isDigit c then (withoutUnderscores isDigit rest).map (c :: ·) else none
  | c :: rest => if isDigit c then (withoutUnderscores isDigit rest).map (c :: ·) else none

/-- The number with a sign and a magnitude, if it fits into 64 bits. -/
def numberOf? (negative : Bool) (magnitude : Nat) : Option JsonNumber :=
  if negative && magnitude ≠ 0 then
    if magnitude ≤ UInt64.size / 2 then some (.negative magnitude.toUInt64) else none
  else if magnitude < UInt64.size then some (.natural magnitude.toUInt64)
  else none

/-- A natural number in a base that is marked at its start. -/
def inBase? (base : Nat) (ds : List Char) : Option JsonNumber := do
  let digit? (c : Char) : Option Nat := (Json.Reader.hexDigit? c).filter (· < base)
  let ds ← withoutUnderscores (fun c => (digit? c).isSome) ds
  numberOf? false (ds.foldl (fun n c => n * base + (digit? c).getD 0) 0)

/-- Whether digits have a zero in front that is not needed. -/
def hasNeedlessZero : List Char → Bool
  | '0' :: _ :: _ => true
  | _ => false

/-- The sign of a number, and what comes after it. -/
def sign : List Char → Bool × List Char
  | '-' :: rest => (true, rest)
  | '+' :: rest => (false, rest)
  | rest => (false, rest)

/-- A double: a whole part, and a fraction or an exponent or both. -/
def double? (negative : Bool) (text : List Char) : Option (Option Binary64) := do
  let isPart (c : Char) : Bool := c.isDigit || c = '_'
  let whole ← withoutUnderscores Char.isDigit (text.takeWhile isPart)
  let text := text.dropWhile isPart
  let (part, text) ←
    match text with
    | '.' :: rest =>
      (withoutUnderscores Char.isDigit (rest.takeWhile isPart)).map (·, rest.dropWhile isPart)
    | rest => some ([], rest)
  let (power, text) ←
    match text with
    | c :: rest =>
      if c = 'e' || c = 'E' then do
        let (below, rest) := sign rest
        let ds ← withoutUnderscores Char.isDigit rest
        let n : Int := Json.Reader.digitsValue ds
        pure (if below then -n else n, [])
      else pure (0, text)
    | [] => pure (0, [])
  if hasNeedlessZero whole || !text.isEmpty then none
  else
    let x ← Binary64.ofDecimal negative (Json.Reader.digitsValue (whole ++ part))
      (power - part.length)
    return some x

/-- The number that a word denotes. -/
def number? (word : List Char) : Option Value :=
  match word with
  | '0' :: 'x' :: ds => (inBase? 16 ds).map .integer
  | '0' :: 'o' :: ds => (inBase? 8 ds).map .integer
  | '0' :: 'b' :: ds => (inBase? 2 ds).map .integer
  | _ =>
    let (negative, ds) := sign word
    if ds = ['i', 'n', 'f'] || ds = ['n', 'a', 'n'] then some (.double none)
    else if ds.all fun c => c.isDigit || c = '_' then do
      let ds ← withoutUnderscores Char.isDigit ds
      if hasNeedlessZero ds then none
      else (numberOf? negative (Json.Reader.digitsValue ds)).map .integer
    else (double? negative ds).map .double

/-! ## Dates and times -/

/-- A number of exactly `width` digits between two bounds. -/
def fixed (width low high : Nat) (text : List Char) : Reading Nat :=
  let ds := text.take width
  let n := Json.Reader.digitsValue ds
  if ds.length = width && ds.all Char.isDigit && low ≤ n && n ≤ high then some (n, text.drop width)
  else none

/-- A given character. -/
def char (c : Char) : List Char → Option (List Char)
  | d :: rest => if c = d then some rest else none
  | [] => none

/-- How many days a month has. -/
def daysIn (year month : Nat) : Nat :=
  if month = 2 then
    if year % 4 = 0 && (year % 100 ≠ 0 || year % 400 = 0) then 29 else 28
  else if [4, 6, 9, 11].contains month then 30
  else 31

/-- A number padded with zeros. -/
def padded (width n : Nat) : List Char :=
  let ds := Nat.toDigits 10 n
  List.replicate (width - ds.length) '0' ++ ds

/-- A date. -/
def date (text : List Char) : Option (List Char × List Char) := do
  let (year, text) ← fixed 4 0 9999 text
  let (month, text) ← fixed 2 1 12 (← char '-' text)
  let (day, text) ← fixed 2 1 (daysIn year month) (← char '-' text)
  return (padded 4 year ++ '-' :: padded 2 month ++ '-' :: padded 2 day, text)

/-- The seconds of a time with their fraction, if they are there. The fraction keeps nine digits,
and no zeros at its end. -/
def seconds (text : List Char) : Option (List Char × List Char) :=
  match text with
  | ':' :: rest => do
    let (second, rest) ← fixed 2 0 60 rest
    match rest with
    | '.' :: rest =>
      let (ds, rest) := Json.Reader.digits rest
      if ds.isEmpty then none
      else
        let kept := ((ds.take 9).reverse.dropWhile (· = '0')).reverse
        return (':' :: padded 2 second ++ (if kept.isEmpty then [] else '.' :: kept), rest)
    | rest => return (':' :: padded 2 second, rest)
  | text => some ([], text)

/-- A time of day. -/
def time (text : List Char) : Option (List Char × List Char) := do
  let (hour, text) ← fixed 2 0 23 text
  let (minute, text) ← fixed 2 0 59 (← char ':' text)
  let (rest, text) ← seconds text
  return (padded 2 hour ++ ':' :: padded 2 minute ++ rest, text)

/-- The distance from the prime meridian's time, if it is there. -/
def offset : List Char → Option (List Char)
  | [] => some []
  | [c] => if c = 'Z' || c = 'z' then some ['Z'] else none
  | c :: rest => do
    if c = '+' || c = '-' then
      let (hour, rest) ← fixed 2 0 23 rest
      let (minute, rest) ← fixed 2 0 59 (← char ':' rest)
      if rest.isEmpty then some (c :: padded 2 hour ++ ':' :: padded 2 minute) else none
    else none

/-- The point in time that a word denotes: a date, a time, or both and perhaps an offset. -/
def moment? (word : List Char) : Option Value :=
  let shown (text : List Char) : Value := .moment (String.ofList text)
  match date word with
  | some (day, []) => some (shown day)
  | some (day, c :: rest) =>
    if c = 'T' || c = 't' || c = ' ' then do
      let (hour, rest) ← time rest
      let zone ← offset rest
      return shown (day ++ 'T' :: hour ++ zone)
    else none
  | none =>
    match time word with
    | some (hour, []) => some (shown hour)
    | _ => none

/-! ## Words -/

/-- Whether a character may be part of a value that is not a text or in brackets. -/
def isWordChar (c : Char) : Bool := c.isAlphanum || "+-_.:".toList.contains c

/-- A word without blanks, save the one between a date and a time. -/
def word (text : List Char) : List Char × List Char :=
  let (first, rest) := (text.takeWhile isWordChar, text.dropWhile isWordChar)
  match date first, rest with
  | some (_, []), ' ' :: d :: rest' =>
    if d.isDigit then
      (first ++ ' ' :: (d :: rest').takeWhile isWordChar, (d :: rest').dropWhile isWordChar)
    else (first, rest)
  | _, _ => (first, rest)

/-- The value that a word denotes. -/
def wordValue? (w : List Char) : Option Value :=
  if w = "true".toList then some (.bool true)
  else if w = "false".toList then some (.bool false)
  else (number? w).or (moment? w)

end Concord.Toml
