/-!
# A place in a YAML text

A cursor is what is left of a text together with the line and column reached. It knows the classes
of characters on which the layout of YAML rests: breaks between lines, blanks within them, and the
marks that separate documents.
-/

namespace Concord.Yaml

/-- What is left of a text, and how far one has come. -/
structure Cursor where
  /-- The text that is left. -/
  rest : List Char
  /-- The number of characters passed. -/
  index : Nat := 0
  /-- The number of line breaks passed. -/
  line : Nat := 0
  /-- The number of characters passed since the last line break. -/
  column : Nat := 0

/-- Whether a character ends a line. -/
def isBreak (c : Char) : Bool :=
  c = '\n' || c = '\r' || c = '\x85' || c = '\u2028' || c = '\u2029'

/-- Whether a character is a blank or a tab. -/
def isBlank (c : Char) : Bool := c = ' ' || c = '\t'

/-- Whether there is nothing, or something that ends a word. -/
def endsWord : Option Char → Bool
  | none => true
  | some c => isBlank c || isBreak c

/-- Whether a character may occur in a text at all. -/
def isAllowed (c : Char) : Bool :=
  c = '\t' || c = '\n' || c = '\r' || (' ' ≤ c && c ≤ '~') || c = '\x85'
    || ('\u00a0' ≤ c && c ≠ '\ufffe' && c ≠ '\uffff')

/-- Whether a character may occur in names of anchors, tags and directives. -/
def isWordChar (c : Char) : Bool := c.isAlphanum || c = '_' || c = '-'

/-- The mark that a text in some encodings starts with. -/
def byteOrderMark : Char := '\ufeff'

namespace Cursor

/-- The next character. -/
def peek? (c : Cursor) : Option Char := c.rest.head?

/-- Some character further on. -/
def peekAt? (c : Cursor) (offset : Nat) : Option Char := (c.rest.drop offset).head?

/-- Whether the next character is the given one. -/
def sees (c : Cursor) (x : Char) : Bool := c.peek? = some x

/-- The cursor after some characters of the same line. -/
def skip (c : Cursor) (count : Nat := 1) : Cursor :=
  { c with rest := c.rest.drop count, index := c.index + count, column := c.column + count }

/-- The cursor after a line break. A return and a newline count as one. -/
def skipBreak (c : Cursor) : Cursor :=
  let width := match c.rest with | '\r' :: '\n' :: _ => 2 | _ => 1
  { rest := c.rest.drop width, index := c.index + width, line := c.line + 1, column := 0 }

/-- What a line break contributes to a text: itself if it is one of the two separators of Unicode,
else a newline; nothing at the end. -/
def breakText (c : Cursor) : List Char :=
  match c.rest with
  | [] => []
  | x :: _ => if x = '\u2028' || x = '\u2029' then [x] else ['\n']

/-- The characters of this line up to the first one without a property, and the cursor there. -/
def span (c : Cursor) (p : Char → Bool) : List Char × Cursor :=
  let taken := c.rest.takeWhile p
  (taken, c.skip taken.length)

/-- The cursor at the end of the line. -/
def skipToBreak (c : Cursor) : Cursor := (c.span fun x => !isBreak x).2

/-- Whether a mark of three characters stands at the start of this line and ends a word. -/
def seesMark (c : Cursor) (mark : List Char) : Bool :=
  c.column = 0 && mark.isPrefixOf c.rest && endsWord (c.peekAt? 3)

/-- Whether a document starts or ends here. -/
def seesDocumentMark (c : Cursor) : Bool :=
  c.seesMark ['-', '-', '-'] || c.seesMark ['.', '.', '.']

/-- More steps than any loop over what is left can take. -/
def bound (c : Cursor) : Nat := c.rest.length + 1

end Cursor

end Concord.Yaml
