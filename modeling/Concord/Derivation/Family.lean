import Concord.Format.Option

/-!
# The vocabulary of the inspected rules

The linter rules that bear on formatting fall into a few families, each with its own vocabulary of
option values. Every family has a type of the choices it can express and a reader that refuses
everything else.
-/

namespace Concord

/-- The choices of the rule about quotes. -/
inductive QuoteStyle where
  /-- Single quotes. -/
  | single
  /-- Double quotes. -/
  | double
  /-- Backticks. -/
  | backtick
deriving DecidableEq, Repr

/-- The choice that a value names. -/
def QuoteStyle.read? (v : Json) : Option QuoteStyle :=
  v.string?.bind fun s =>
    if s = "single" then some .single
    else if s = "double" then some .double
    else if s = "backtick" then some .backtick
    else none

/-- The choices of the rules about spacing and about semicolons. -/
inductive Toggle where
  /-- Always. -/
  | always
  /-- Never. -/
  | never
deriving DecidableEq, Repr

/-- The choice that a value names. -/
def Toggle.read? (v : Json) : Option Toggle :=
  v.string?.bind fun s =>
    if s = "always" then some .always
    else if s = "never" then some .never
    else none

/-- The choices of the rule about indentation. -/
inductive Indentation where
  /-- One tab for each step. -/
  | tab
  /-- A number of blanks for each step. -/
  | spaces (columns : UInt32)
deriving DecidableEq, Repr

/-- The choice that a value names. -/
def Indentation.read? : Json → Option Indentation
  | .string s => if s = "tab" then some .tab else none
  | v => v.natural32?.map .spaces

/-- Whether a word asks for something always, perhaps under a condition. -/
def startsWithAlways (s : String) : Bool := "always".toList.isPrefixOf s.toList

/-- The choices of the rule about trailing commas. -/
inductive CommaDangle where
  /-- No trailing commas. -/
  | never
  /-- Trailing commas everywhere, perhaps under a condition that `word` states. -/
  | always (word : String)
  /-- A word for each kind of construct; the empty word where none is given. -/
  | byConstruct (arrays objects functions : String)
deriving DecidableEq, Repr

namespace CommaDangle

/-- The word that an object gives a construct. -/
def wordFor (v : Json) (construct : String) : String :=
  ((v.field? construct).bind Json.string?).getD ""

/-- The choice that a value names. -/
def read? : Json → Option CommaDangle
  | .string s =>
    if s = "never" then some .never
    else if startsWithAlways s then some (.always s)
    else none
  | .object fields =>
    let v := Json.object fields
    some (.byConstruct (wordFor v "arrays") (wordFor v "objects") (wordFor v "functions"))
  | _ => none

/-- The formatter's choice that comes closest. -/
def toTrailingComma : CommaDangle → TrailingComma
  | .never => .none
  | .always _ => .es5
  | .byConstruct arrays objects functions =>
    if startsWithAlways functions then .all
    else if startsWithAlways arrays || startsWithAlways objects then .es5
    else .none

end CommaDangle

/-- The choices of the rule about the closing bracket of an element. -/
inductive ClosingBracket where
  /-- After the last attribute. -/
  | afterProps
  /-- Below the opening bracket. -/
  | tagAligned
  /-- Below the start of the line. -/
  | lineAligned
  /-- Below the attributes. -/
  | propsAligned
deriving DecidableEq, Repr

/-- The choice that a value names. -/
def ClosingBracket.read? (v : Json) : Option ClosingBracket :=
  v.string?.bind fun s =>
    if s = "after-props" then some .afterProps
    else if s = "tag-aligned" then some .tagAligned
    else if s = "line-aligned" then some .lineAligned
    else if s = "props-aligned" then some .propsAligned
    else none

/-- The choices of the rule about arrow parentheses. -/
inductive ArrowStyle where
  /-- Only where they are needed. -/
  | asNeeded
  /-- Always. -/
  | always
deriving DecidableEq, Repr

/-- The choice that a value names. -/
def ArrowStyle.read? (v : Json) : Option ArrowStyle :=
  v.string?.bind fun s =>
    if s = "as-needed" then some .asNeeded
    else if s = "always" then some .always
    else none

end Concord
