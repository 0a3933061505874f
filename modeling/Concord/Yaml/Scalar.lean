import Concord.Json.Reader
import Concord.Yaml.Cursor

/-!
# The texts of scalars

A scalar is written plainly, in quotes, or as a block of lines. In the first two forms a stretch of
blanks and line breaks between words is a `Gap`, which is folded: a single line break counts as a
blank, further ones are kept. A block keeps its lines or folds those that start with a word.
-/

namespace Concord.Yaml

/-- Blanks and line breaks between two words of a scalar. -/
structure Gap where
  /-- The blanks before the first line break. -/
  blanks : List Char := []
  /-- Whether there is a line break. -/
  broken : Bool := false
  /-- The first line break. -/
  firstBreak : List Char := []
  /-- The line breaks after the first. -/
  laterBreaks : List Char := []

/-- What a gap contributes to the text. -/
def Gap.text (g : Gap) : List Char :=
  if !g.broken then g.blanks
  else if g.firstBreak = ['\n'] then
    if g.laterBreaks.isEmpty then [' '] else g.laterBreaks
  else g.firstBreak ++ g.laterBreaks

/-- A gap continued to the next word. A tab left of the column `margin` is refused where blanks
indent a line. -/
def Gap.continue (margin : Int) : Nat → Gap → Cursor → Option (Gap × Cursor)
  | 0, _, _ => none
  | fuel + 1, g, c =>
    match c.peek? with
    | some x =>
      if isBlank x then
        if g.broken then
          if x = '\t' && (c.column : Int) < margin then none
          else Gap.continue margin fuel g c.skip
        else Gap.continue margin fuel { g with blanks := g.blanks ++ [x] } c.skip
      else if isBreak x then
        if g.broken then
          Gap.continue margin fuel { g with laterBreaks := g.laterBreaks ++ c.breakText }
            c.skipBreak
        else
          Gap.continue margin fuel { broken := true, firstBreak := c.breakText } c.skipBreak
      else some (g, c)
    | none => some (g, c)

/-! ## Plain scalars -/

/-- Whether a character has a meaning of its own inside brackets. -/
def isFlowIndicator (x : Char) : Bool := x = ',' || x = '[' || x = ']' || x = '\x7b' || x = '\x7d'

/-- A word of a plain scalar. A colon before a blank ends it, as do brackets and commas inside
brackets, where a colon right before one of these is refused. -/
def plainWord (inFlow : Bool) : Nat → Cursor → Option (List Char × Cursor)
  | 0, _ => none
  | fuel + 1, c =>
    match c.peek? with
    | none => some ([], c)
    | some x =>
      let next := c.peekAt? 1
      if isBlank x || isBreak x then some ([], c)
      else if inFlow && x = ':' && next.any fun y => y = '?' || isFlowIndicator y then none
      else if (x = ':' && endsWord next) || (inFlow && isFlowIndicator x) then some ([], c)
      else (plainWord inFlow fuel c.skip).map fun (word, c) => (x :: word, c)

/-- The words of a plain scalar from here on, with the gaps between them; `gap` precedes the next
word. The result also says whether a line break was passed at the end. -/
def plainWords (inFlow : Bool) (margin : Int) :
    Nat → Gap → Cursor → Option (List Char × Bool × Cursor)
  | 0, _, _ => none
  | fuel + 1, gap, c =>
    if c.seesDocumentMark || c.sees '#' then some ([], gap.broken, c)
    else do
      let (word, c) ← plainWord inFlow c.bound c
      let text := if word.isEmpty then [] else gap.text ++ word
      let gap := if word.isEmpty then gap else {}
      if (c.peek?.any fun x => isBlank x || isBreak x) then
        let (gap, c) ← gap.continue margin c.bound c
        if !inFlow && (c.column : Int) < margin then return (text, gap.broken, c)
        else
          let (more, broken, c) ← plainWords inFlow margin fuel gap c
          return (text ++ more, broken, c)
      else return (text, gap.broken, c)

/-- A plain scalar inside a block indented to `indent`. -/
def plainScalar (inFlow : Bool) (indent : Int) (c : Cursor) : Option (List Char × Bool × Cursor) :=
  plainWords inFlow (indent + 1) c.bound {} c

/-! ## Quoted scalars -/

/-- What an escape of one letter stands for. -/
def shortEscape? : Char → Option Char
  | '0' => some '\x00'
  | 'a' => some '\x07'
  | 'b' => some '\x08'
  | 't' => some '\t'
  | '\t' => some '\t'
  | 'n' => some '\n'
  | 'v' => some '\x0b'
  | 'f' => some '\x0c'
  | 'r' => some '\r'
  | 'e' => some '\x1b'
  | ' ' => some ' '
  | '"' => some '"'
  | '/' => some '/'
  | '\\' => some '\\'
  | 'N' => some '\x85'
  | '_' => some '\u00a0'
  | 'L' => some '\u2028'
  | 'P' => some '\u2029'
  | _ => none

/-- How many digits in base sixteen follow the letter of an escape. -/
def escapeWidth? : Char → Option Nat
  | 'x' => some 2
  | 'u' => some 4
  | 'U' => some 8
  | _ => none

/-- The number that digits in base sixteen denote. -/
def hexValue? (ds : List Char) : Option Nat :=
  ds.foldlM (fun n d => (Json.Reader.hexDigit? d).map (n * 16 + ·)) 0

/-- The character with a number, unless the number is a surrogate or too large. -/
def charOf? (n : Nat) : Option Char := if h : n.isValidChar then some (Char.ofNatAux n h) else none

/-- The character that an escape stands for and the cursor after it. The cursor stands after the
backslash. -/
def escape (c : Cursor) : Option (Char × Cursor) :=
  match c.peek? with
  | none => none
  | some x =>
    match escapeWidth? x with
    | none => (shortEscape? x).map (·, c.skip)
    | some width =>
      let ds := (c.rest.drop 1).take width
      if ds.length = width then
        ((hexValue? ds).bind charOf?).map (·, c.skip (width + 1))
      else none

/-- A word inside quotes, and whether a backslash at the end of the line ended it. -/
def quotedWord (double : Bool) : Nat → Cursor → Option (List Char × Bool × Cursor)
  | 0, _ => none
  | fuel + 1, c =>
    let cons (x : Char) (r : Option (List Char × Bool × Cursor)) :=
      r.map fun (word, joined, c) => (x :: word, joined, c)
    match c.peek? with
    | none => some ([], false, c)
    | some x =>
      if isBlank x || isBreak x then some ([], false, c)
      else if !double && x = '\'' then
        if c.peekAt? 1 = some '\'' then cons '\'' (quotedWord double fuel (c.skip 2))
        else some ([], false, c)
      else if double && x = '"' then some ([], false, c)
      else if double && x = '\\' then
        if (c.peekAt? 1).any isBreak then some ([], true, c.skip.skipBreak)
        else do
          let (y, c) ← escape c.skip
          cons y (quotedWord double fuel c)
      else cons x (quotedWord double fuel c.skip)

/-- The text inside quotes and the cursor after the closing one. The cursor stands after the opening
one. -/
def quotedWords (double : Bool) : Nat → Cursor → Option (List Char × Cursor)
  | 0, _ => none
  | fuel + 1, c =>
    if c.seesDocumentMark || c.rest.isEmpty then none
    else do
      let (word, joined, c) ← quotedWord double c.bound c
      if c.sees (if double then '"' else '\'') then return (word, c.skip)
      else
        let (gap, c) ← Gap.continue 0 c.bound { broken := joined } c
        let (more, c) ← quotedWords double fuel c
        return (word ++ gap.text ++ more, c)

/-- A scalar in quotes. -/
def quotedScalar (double : Bool) (c : Cursor) : Option (List Char × Cursor) :=
  quotedWords double c.bound c.skip

/-! ## Blocks of lines -/

/-- What happens to the line breaks at the end of a block. -/
inductive Chomping where
  /-- All are dropped. -/
  | strip
  /-- One is kept. -/
  | clip
  /-- All are kept. -/
  | keep
deriving DecidableEq

/-- Indentation and line breaks up to the next line of a block. An indentation of `none` is to be
found out: it is that of the most indented line. The result has the line breaks, that indentation,
and the cursor. -/
def blockGap (indent : Option Nat) : Nat → Nat → Cursor → Option (List Char × Nat × Cursor)
  | 0, _, _ => none
  | fuel + 1, deepest, c =>
    let room := match indent with | none => c.rest.length | some n => n - c.column
    let blanks := ((c.rest.take room).takeWhile (· = ' ')).length
    let c := c.skip blanks
    let deepest := max deepest c.column
    let indenting := match indent with | none => true | some n => c.column < n
    if indenting && c.sees '\t' then none
    else if c.peek?.any isBreak then do
      let (breaks, deepest, rest) ← blockGap indent fuel deepest c.skipBreak
      return (c.breakText ++ breaks, deepest, rest)
    else some ([], deepest, c)

/-- The state in which a line of a block is read. -/
structure BlockState where
  /-- The line break at the end of the line before. -/
  lastBreak : List Char := []
  /-- The line breaks of the empty lines after that. -/
  emptyLines : List Char := []
  /-- Whether the line before starts with a blank. -/
  afterBlank : Bool := false

/-- The lines of a block indented to `indent`, and the state at its end. -/
def blockLines (literal : Bool) (indent : Nat) :
    Nat → BlockState → Cursor → Option (List Char × BlockState × Cursor)
  | 0, _, _ => none
  | fuel + 1, s, c =>
    if c.column = indent && !c.rest.isEmpty then do
      let blank := c.peek?.any isBlank
      let folds := !literal && s.lastBreak = ['\n'] && !s.afterBlank && !blank
      let before := if folds then (if s.emptyLines.isEmpty then [' '] else []) else s.lastBreak
      let (line, c) := c.span fun x => !isBreak x
      let ended := c.breakText
      let c := if c.rest.isEmpty then c else c.skipBreak
      let (empty, _, c) ← blockGap (some indent) c.bound 0 c
      let (more, last, c) ← blockLines literal indent fuel ⟨ended, empty, blank⟩ c
      return (before ++ s.emptyLines ++ line ++ more, last, c)
    else some ([], s, c)

/-- The indicators after the mark of a block, in either order: chomping and an indentation from one
to nine. -/
def blockHeader (c : Cursor) : Option (Chomping × Option Nat × Cursor) :=
  let chomping? (c : Cursor) : Option Chomping :=
    if c.sees '+' then some .keep else if c.sees '-' then some .strip else none
  let digit? (c : Cursor) : Option Nat :=
    c.peek?.bind fun x => if x.isDigit then some (x.toNat - '0'.toNat) else none
  let checked (chomping : Chomping) (n : Nat) (c : Cursor) :=
    if n = 0 then none else some (chomping, some n, c)
  match chomping? c with
  | some chomping =>
    match digit? c.skip with
    | some n => checked chomping n (c.skip 2)
    | none => some (chomping, none, c.skip)
  | none =>
    match digit? c with
    | some n =>
      match chomping? c.skip with
      | some chomping => checked chomping n (c.skip 2)
      | none => checked .clip n c.skip
    | none => some (.clip, none, c)

/-- A block of lines inside a block indented to `indent`. The cursor stands at its mark. -/
def blockScalar (literal : Bool) (indent : Int) (c : Cursor) : Option (List Char × Cursor) := do
  let (chomping, increment, c) ← blockHeader c.skip
  let c := (c.span isBlank).2
  let c := if c.sees '#' then c.skipToBreak else c
  if c.peek?.any fun x => !isBreak x then none
  else
    let c := if c.rest.isEmpty then c else c.skipBreak
    let given := increment.map fun n => (max indent 0).toNat + n
    let (breaks, deepest, c) ← blockGap given c.bound 0 c
    let column := given.getD (max deepest (max (indent + 1) 1).toNat)
    let (text, last, c) ← blockLines literal column c.bound { emptyLines := breaks } c
    let tail :=
      match chomping with
      | .strip => []
      | .clip => last.lastBreak
      | .keep => last.lastBreak ++ last.emptyLines
    return (text ++ tail, c)

end Concord.Yaml
