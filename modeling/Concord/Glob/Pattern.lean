import Concord.Path.Basic

/-!
# Patterns of file names

A pattern is a sequence of tokens, each of which matches some stretch of a text. `Pattern.parse?`
reads a pattern and refuses malformed ones; `Pattern.accepts` says whether a whole text matches. A
slash in the text is only ever matched by a slash in the pattern or by the token for any number of
directories.
-/

namespace Concord

/-- A member of a class of characters. -/
inductive ClassMember where
  /-- One character. -/
  | single (c : Char)
  /-- The characters from the first to the last. -/
  | range (first last : Char)
deriving DecidableEq, Repr

/-- Whether a class with this member has a character. -/
def ClassMember.admits (c : Char) : ClassMember → Bool
  | .single d => c = d
  | .range first last => first ≤ c && c ≤ last

/-- A part of a pattern. -/
inductive GlobToken where
  /-- The character itself. -/
  | literal (c : Char)
  /-- Any one character. -/
  | anyChar
  /-- Any number of characters. -/
  | anyRun
  /-- Any number of directories; at the end of a pattern anything at all. -/
  | directories
  /-- One character of a class, or one outside it. -/
  | oneOf (negated : Bool) (members : List ClassMember)
deriving DecidableEq, Repr

/-- A pattern of file names. -/
structure Pattern where
  /-- The parts in order. -/
  tokens : List GlobToken
deriving DecidableEq, Repr

namespace Pattern

/-! ## Reading -/

/-- Where the reader of a pattern stands. -/
inductive Place where
  /-- Outside of a class; `fresh` at the start of the pattern and after a slash. -/
  | outside (fresh : Bool)
  /-- Inside a class, with the characters read so far in reverse. -/
  | inClass (negated : Bool) (members : List Char)

/-- The members that the characters of a class describe: three characters with a dash between are a
range. -/
def classMembers : List Char → List ClassMember
  | first :: '-' :: last :: rest => .range first last :: classMembers rest
  | c :: rest => .single c :: classMembers rest
  | [] => []

/-- The tokens of a pattern, read from a place on. Two stars must fill a whole segment and take the
slash after them along; three are refused. A class ends at the next closing bracket after its first
member and must end. -/
def tokensFrom : Place → List Char → Option (List GlobToken)
  | .inClass _ _, [] => none
  | .inClass negated members, c :: rest =>
    if c = ']' && !members.isEmpty then
      (tokensFrom (.outside false) rest).map (.oneOf negated (classMembers members.reverse) :: ·)
    else tokensFrom (.inClass negated (c :: members)) rest
  | .outside _, [] => some []
  | .outside _, '?' :: rest => (tokensFrom (.outside false) rest).map (.anyChar :: ·)
  | .outside _, '*' :: '*' :: '*' :: _ => none
  | .outside fresh, ['*', '*'] => if fresh then some [.directories] else none
  | .outside fresh, '*' :: '*' :: '/' :: rest =>
    if fresh then (tokensFrom (.outside true) rest).map (.directories :: ·) else none
  | .outside _, '*' :: '*' :: _ => none
  | .outside _, '*' :: rest => (tokensFrom (.outside false) rest).map (.anyRun :: ·)
  | .outside _, '[' :: '!' :: rest => tokensFrom (.inClass true []) rest
  | .outside _, '[' :: rest => tokensFrom (.inClass false []) rest
  | .outside _, c :: rest => (tokensFrom (.outside (c = '/')) rest).map (.literal c :: ·)

/-- The pattern that a text describes; `none` if it is malformed. -/
def parse? (text : String) : Option Pattern :=
  (tokensFrom (.outside true) text.toList).map (⟨·⟩)

/-! ## Matching -/

/-- Whether some run of characters without a slash leaves a text that `rest` accepts. -/
def anyRunThen (rest : List Char → Bool) : List Char → Bool
  | [] => rest []
  | c :: text => rest (c :: text) || (c ≠ '/' && anyRunThen rest text)

/-- Whether `rest` accepts what follows some slash. -/
def afterSlash (rest : List Char → Bool) : List Char → Bool
  | [] => false
  | c :: text => (c = '/' && rest text) || afterSlash rest text

/-- Whether tokens match a whole text. -/
def matchTokens : List GlobToken → List Char → Bool
  | [], text => text.isEmpty
  | .literal _ :: _, [] => false
  | .literal c :: tokens, d :: text => c = d && matchTokens tokens text
  | .anyChar :: _, [] => false
  | .anyChar :: tokens, c :: text => c ≠ '/' && matchTokens tokens text
  | .oneOf _ _ :: _, [] => false
  | .oneOf negated members :: tokens, c :: text =>
    c ≠ '/' && members.any (ClassMember.admits c) != negated && matchTokens tokens text
  | .anyRun :: tokens, text => anyRunThen (matchTokens tokens) text
  | .directories :: tokens, text =>
    tokens.isEmpty || matchTokens tokens text || afterSlash (matchTokens tokens) text

/-- Whether the pattern matches a whole text. -/
def accepts (p : Pattern) (text : String) : Bool := matchTokens p.tokens text.toList

/-- The text of a pattern that matches nothing but that text. -/
def literalText? (p : Pattern) : Option String :=
  (p.tokens.mapM fun (t : GlobToken) =>
    match t with
    | .literal c => some c
    | _ => none).map String.ofList

/-- Whether the pattern is the token for any number of directories alone. -/
def isRecursive (p : Pattern) : Bool := p.tokens = [.directories]

end Pattern

/-! ## Patterns against paths -/

/-- The list and what remains of it after each item but the last. -/
def nonemptyTails {α : Type} : List α → List (List α)
  | [] => []
  | a :: rest => (a :: rest) :: nonemptyTails rest

/-- Whether a written pattern selects a path: without a slash it is held against the name of the
entry, with one against every trailing run of names. A malformed pattern selects nothing. -/
def Path.selectedBy (file : Path) (written : String) : Bool :=
  match Pattern.parse? written with
  | none => false
  | some pattern =>
    if written.toList.contains '/' then
      (nonemptyTails file.names).any fun tail => pattern.accepts (String.intercalate "/" tail)
    else
      match file.fileName? with
      | some name => pattern.accepts name
      | none => false

/-- Whether one of several written patterns selects a path. -/
def Path.selectedByAny (file : Path) (written : List String) : Bool :=
  written.any file.selectedBy

end Concord
