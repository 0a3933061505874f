import Concord.Yaml.Scalar

/-!
# Tokens of a YAML text

Tokens make the layout of a text explicit: where a block begins and ends by its indentation, and
what is a key. That something is a key shows only at the colon after it, so every place where a key
may have begun is remembered, one for each open bracket, until it can no longer be one: a key keeps
to one line and to 1024 characters.
-/

namespace Concord.Yaml

/-- A token. -/
inductive Token where
  /-- A directive that states the version of the language. -/
  | version (major minor : Nat)
  /-- A directive that declares a handle for tags. -/
  | handle (name start : String)
  /-- The mark at the start of a document. -/
  | documentStart
  /-- The mark at the end of a document. -/
  | documentEnd
  /-- A list laid out by indentation begins. -/
  | blockSequenceStart
  /-- A mapping laid out by indentation begins. -/
  | blockMappingStart
  /-- Something laid out by indentation ends. -/
  | blockEnd
  /-- A bracket of a list opens. -/
  | flowSequenceStart
  /-- A bracket of a list closes. -/
  | flowSequenceEnd
  /-- A bracket of a mapping opens. -/
  | flowMappingStart
  /-- A bracket of a mapping closes. -/
  | flowMappingEnd
  /-- The dash before an item. -/
  | blockEntry
  /-- The comma between items. -/
  | flowEntry
  /-- A key follows. -/
  | key
  /-- The value of a key follows. -/
  | value
  /-- A reference to an anchor. -/
  | alias (name : String)
  /-- A name for the node that follows. -/
  | anchor (name : String)
  /-- A tag for the node that follows, as a handle and what comes after it. -/
  | tag (handle suffix : String)
  /-- A scalar. -/
  | scalar (plain : Bool) (text : String)
  /-- The text ends. -/
  | streamEnd
deriving DecidableEq

/-- A place where a key may have begun. -/
structure PossibleKey where
  /-- Whether there must be a key, by the indentation. -/
  required : Bool
  /-- How many tokens precede it. -/
  position : Nat
  /-- The cursor at its start. -/
  start : Cursor

/-- What is known halfway through the tokens of a text. -/
structure Scan where
  /-- The place reached. -/
  cursor : Cursor
  /-- The tokens so far. -/
  tokens : Array Token := #[]
  /-- The column of the innermost block, or `-1` outside of all. -/
  indent : Int := -1
  /-- The columns of the blocks around it, innermost first. -/
  outer : List Int := []
  /-- How many brackets are open. -/
  flow : Nat := 0
  /-- Whether a key may begin here. -/
  keyAllowed : Bool := true
  /-- Where a key may have begun, for each open bracket and outside of all, innermost first. -/
  keys : List (Option PossibleKey) := [none]

namespace Scan

/-- The longest stretch of text between the start of a key and its colon. -/
def longestKey : Nat := 1024

/-- The scan with one more token. -/
def push (s : Scan) (t : Token) : Scan := { s with tokens := s.tokens.push t }

/-- The scan with the next characters passed. -/
def skip (s : Scan) (count : Nat := 1) : Scan := { s with cursor := s.cursor.skip count }

/-! ## Keys -/

/-- Whether a place can no longer be the start of a key. -/
def isStale (c : Cursor) (k : PossibleKey) : Bool :=
  k.start.line < c.line || k.start.index + longestKey < c.index

/-- The scan without places that can no longer be keys; one that had to be a key is an error. -/
def dropStale (s : Scan) : Option Scan := do
  let keys ← s.keys.mapM fun slot =>
    match slot with
    | some k => if isStale s.cursor k then (if k.required then none else some none) else some slot
    | none => some none
  return { s with keys }

/-- The scan without the innermost place for a key; one that had to be a key is an error. -/
def dropKey (s : Scan) : Option Scan :=
  match s.keys with
  | some k :: rest => if k.required then none else some { s with keys := none :: rest }
  | _ => some s

/-- The scan that remembers this place as one for a key, if a key may begin here. -/
def saveKey (s : Scan) : Option Scan :=
  if s.keyAllowed then do
    let required := s.flow = 0 && s.indent = s.cursor.column
    let s ← s.dropKey
    return { s with keys := some ⟨required, s.tokens.size, s.cursor⟩ :: s.keys.tail }
  else some s

/-! ## Indentation -/

/-- The scan with a block begun at a column, if it is deeper than the innermost one. Its token goes
to a given position. -/
def beginBlock (s : Scan) (column : Nat) (position : Nat) (t : Token) : Scan :=
  if s.flow = 0 && s.indent < column then
    { s with indent := column, outer := s.indent :: s.outer,
             tokens := s.tokens.insertIdxIfInBounds position t }
  else s

/-- The columns of blocks left after those deeper than a column have ended, and how many ended. -/
def blocksAbove (column : Int) (indent : Int) : List Int → Int × List Int × Nat
  | [] => (indent, [], 0)
  | above :: rest =>
    if column < indent then
      let (i, r, n) := blocksAbove column above rest
      (i, r, n + 1)
    else (indent, above :: rest, 0)

/-- The scan with the blocks deeper than a column ended. -/
def endBlocks (s : Scan) (column : Int) : Scan :=
  if s.flow = 0 then
    let (indent, outer, ended) := blocksAbove column s.indent s.outer
    { s with indent, outer, tokens := s.tokens ++ Array.replicate ended Token.blockEnd }
  else s

/-! ## Gaps between tokens -/

/-- The next token's place: after blanks, comments and line breaks. Outside of brackets a key may
begin on a new line, and a tab is no blank where a key may begin. -/
def gap (s : Scan) : Nat → Scan
  | 0 => s
  | fuel + 1 =>
    let c := s.cursor
    let c := if c.column = 0 && c.sees byteOrderMark then c.skip else c
    let tabs := s.flow ≠ 0 || !s.keyAllowed
    let c := (c.span fun x => x = ' ' || (tabs && x = '\t')).2
    let c := if c.sees '#' then c.skipToBreak else c
    if c.peek?.any isBreak then
      gap { s with cursor := c.skipBreak, keyAllowed := s.keyAllowed || s.flow = 0 } fuel
    else { s with cursor := c }

/-! ## The kinds of tokens -/

/-- A bracket opens; it may itself begin a key. -/
def openBracket (s : Scan) (t : Token) : Option Scan := do
  let s ← s.saveKey
  return { s with keys := none :: s.keys, flow := s.flow + 1, keyAllowed := true }.push t |>.skip

/-- A bracket closes. -/
def closeBracket (s : Scan) (t : Token) : Option Scan := do
  let s ← s.dropKey
  let s := if s.flow = 0 then s else { s with keys := s.keys.tail, flow := s.flow - 1 }
  return { s with keyAllowed := false }.push t |>.skip

/-- A comma. -/
def comma (s : Scan) : Option Scan := do
  let s ← s.dropKey
  return { s with keyAllowed := true }.push .flowEntry |>.skip

/-- The dash before an item. -/
def dash (s : Scan) : Option Scan := do
  if s.flow = 0 && !s.keyAllowed then none
  else
    let s := s.beginBlock s.cursor.column s.tokens.size .blockSequenceStart
    let s ← s.dropKey
    return { s with keyAllowed := true }.push .blockEntry |>.skip

/-- The mark before a key that is more than a scalar. -/
def questionMark (s : Scan) : Option Scan := do
  if s.flow = 0 && !s.keyAllowed then none
  else
    let s := s.beginBlock s.cursor.column s.tokens.size .blockMappingStart
    let s ← s.dropKey
    return { s with keyAllowed := s.flow = 0 }.push .key |>.skip

/-- The colon before a value. What may have been a key now is one. -/
def colon (s : Scan) : Option Scan :=
  match s.keys with
  | some k :: rest =>
    let s := { s with tokens := s.tokens.insertIdxIfInBounds k.position .key }
    let s := s.beginBlock k.start.column k.position .blockMappingStart
    some ({ s with keys := none :: rest, keyAllowed := false }.push .value |>.skip)
  | _ =>
    if s.flow = 0 && !s.keyAllowed then none
    else
      let s := s.beginBlock s.cursor.column s.tokens.size .blockMappingStart
      some ({ s with keyAllowed := s.flow = 0 }.push .value |>.skip)

/-- A mark between documents. -/
def documentMark (s : Scan) (t : Token) : Option Scan := do
  let s ← (s.endBlocks (-1)).dropKey
  return { s with keyAllowed := false }.push t |>.skip 3

/-- The name of an anchor, as given or as referred to. -/
def anchorName (s : Scan) (t : String → Token) : Option Scan := do
  let s ← s.saveKey
  let (name, c) := s.cursor.skip.span isWordChar
  let ends := endsWord c.peek? || c.peek?.any fun x => "?:,]\x7d%@\x60".toList.contains x
  if name.isEmpty || !ends then none
  else return { s with cursor := c, keyAllowed := false }.push (t (String.ofList name))

/-- Whether a character may occur in what follows the handle of a tag; commas and brackets may only
where `wide`. -/
def isTagChar (wide : Bool) (x : Char) : Bool :=
  isWordChar x || ";/?:@&=+$.!~*'()%".toList.contains x || (wide && ",[]".toList.contains x)

/-- The bytes that a text with escaped bytes stands for. -/
def tagBytes : List Char → Option (List UInt8)
  | [] => some []
  | '%' :: a :: b :: rest => do
    let n := (← Json.Reader.hexDigit? a) * 16 + (← Json.Reader.hexDigit? b)
    return n.toUInt8 :: (← tagBytes rest)
  | '%' :: _ => none
  | x :: rest => (tagBytes rest).map (x.toNat.toUInt8 :: ·)

/-- The text that a text with escaped bytes stands for. -/
def tagText (text : List Char) : Option String :=
  (tagBytes text).bind fun bytes => String.fromUTF8? ⟨bytes.toArray⟩

/-- A tag: verbatim in angle brackets, a handle between exclamation marks with what follows, or one
exclamation mark with what follows. -/
def tag (s : Scan) : Option Scan := do
  let s ← s.saveKey
  let c := s.cursor
  let (handle, suffix, c) ←
    if c.peekAt? 1 = some '<' then do
      let (text, c) := (c.skip 2).span (isTagChar true)
      if text.isEmpty || !c.sees '>' then none else pure ([], text, c.skip)
    else
      let (name, after) := c.skip.span isWordChar
      if after.sees '!' then
        let (text, c) := after.skip.span (isTagChar false)
        if text.isEmpty then none else pure ('!' :: name ++ ['!'], text, c)
      else
        let (text, c) := after.span (isTagChar false)
        let text := name ++ text
        pure (if text.isEmpty then ([], ['!'], c) else (['!'], text, c))
  let ends := endsWord c.peek? || (s.flow ≠ 0 && c.sees ',')
  if ends then
    let t := Token.tag (String.ofList handle) (← tagText suffix)
    return { s with cursor := c, keyAllowed := false }.push t
  else none

/-- The number that digits denote, at most nine of them. -/
def versionNumber (c : Cursor) : Option (Nat × Cursor) :=
  let (ds, c) := c.span Char.isDigit
  if ds.isEmpty || 9 < ds.length then none else some (Json.Reader.digitsValue ds, c)

/-- A directive: a version or a handle for tags. -/
def directive (s : Scan) : Option Scan := do
  let s ← (s.endBlocks (-1)).dropKey
  let (name, c) := s.cursor.skip.span isWordChar
  if !endsWord c.peek? then none
  else
    let c := (c.span isBlank).2
    let (t, c) ←
      if name = "YAML".toList then do
        let (major, c) ← versionNumber c
        if !c.sees '.' then none
        else
          let (minor, c) ← versionNumber c.skip
          pure (Token.version major minor, c)
      else if name = "TAG".toList then do
        if !c.sees '!' then none
        else
          let (word, after) := c.skip.span isWordChar
          let closed := after.sees '!'
          if !closed && !word.isEmpty then none
          else
            let c := if closed then after.skip else after
            let handle := '!' :: word ++ (if closed then ['!'] else [])
            if !c.peek?.any isBlank then none
            else
              let (start, c) := (c.span isBlank).2.span (isTagChar true)
              if start.isEmpty || !endsWord c.peek? then none
              else pure (Token.handle (String.ofList handle) (← tagText start), c)
      else none
    let c := (c.span isBlank).2
    let c := if c.sees '#' then c.skipToBreak else c
    if c.peek?.any fun x => !isBreak x then none
    else
      let c := if c.rest.isEmpty then c else c.skipBreak
      return { s with cursor := c, keyAllowed := false }.push t

/-- A scalar in quotes. -/
def quoted (s : Scan) (double : Bool) : Option Scan := do
  let s ← s.saveKey
  let (text, c) ← quotedScalar double s.cursor
  return { s with cursor := c, keyAllowed := false }.push (.scalar false (String.ofList text))

/-- A plain scalar. After a line break at its end a key may begin. -/
def plain (s : Scan) : Option Scan := do
  let s ← s.saveKey
  let (text, broken, c) ← plainScalar (s.flow ≠ 0) s.indent s.cursor
  return { s with cursor := c, keyAllowed := broken }.push (.scalar true (String.ofList text))

/-- A block of lines. -/
def block (s : Scan) (literal : Bool) : Option Scan := do
  let s ← s.dropKey
  let (text, c) ← blockScalar literal s.indent s.cursor
  return { s with cursor := c, keyAllowed := true }.push (.scalar false (String.ofList text))

/-- The end of the text: all blocks end. -/
def finish (s : Scan) : Option Scan := do
  let s ← (s.endBlocks (-1)).dropKey
  return s.push .streamEnd

/-- Characters with which no plain scalar starts, unless they are the marks for items, keys and
values and are followed by more of a word. -/
def isIndicator (x : Char) : Bool := "-?:,[]\x7b\x7d#&*!|>'\"%@\x60".toList.contains x

/-- The next token, given its first character. -/
def token (s : Scan) (x : Char) : Option Scan :=
  let c := s.cursor
  let next := c.peekAt? 1
  let mark := s.flow ≠ 0 || endsWord next
  if c.column = 0 && x = '%' then s.directive
  else if c.seesMark ['-', '-', '-'] then s.documentMark .documentStart
  else if c.seesMark ['.', '.', '.'] then s.documentMark .documentEnd
  else if x = '[' then s.openBracket .flowSequenceStart
  else if x = '\x7b' then s.openBracket .flowMappingStart
  else if x = ']' then s.closeBracket .flowSequenceEnd
  else if x = '\x7d' then s.closeBracket .flowMappingEnd
  else if x = ',' then s.comma
  else if x = '-' && endsWord next then s.dash
  else if x = '?' && mark then s.questionMark
  else if x = ':' && mark then s.colon
  else if x = '*' then s.anchorName .alias
  else if x = '&' then s.anchorName .anchor
  else if x = '!' then s.tag
  else if x = '|' && s.flow = 0 then s.block true
  else if x = '>' && s.flow = 0 then s.block false
  else if x = '\'' then s.quoted false
  else if x = '"' then s.quoted true
  else if (!isBlank x && !isIndicator x)
      || (x = '-' && !next.any isBlank)
      || (s.flow = 0 && (x = '?' || x = ':') && !endsWord next) then s.plain
  else none

/-- The tokens from here to the end of the text. -/
def run (s : Scan) : Nat → Option (Array Token)
  | 0 => none
  | fuel + 1 => do
    let s ← (s.gap s.cursor.bound).dropStale
    let s := s.endBlocks s.cursor.column
    match s.cursor.peek? with
    | none => return (← s.finish).tokens
    | some x => run (← s.token x) fuel

end Scan

/-- The tokens of a text, or `none` where it cannot be cut into tokens. -/
def tokens? (text : String) : Option (List Token) :=
  let chars := text.toList
  let chars := if chars.head? = some byteOrderMark then chars.tail else chars
  if chars.all isAllowed then
    ((Scan.run { cursor := { rest := chars } } (chars.length + 2))).map Array.toList
  else none

end Concord.Yaml
