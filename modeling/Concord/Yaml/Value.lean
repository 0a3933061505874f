import Concord.Yaml.Node

/-!
# What YAML nodes stand for

A plain scalar may stand for `null`, a truth value or a number; all other scalars stand for their
text. Tags of the language itself ask for one reading, tags of a program's own are refused. A number
that is an integer but does not fit into 64 bits is refused, and one that is not finite becomes
`null`.
-/

namespace Concord.Yaml

/-! ## Plain scalars -/

/-- Whether a text is one of the spellings of `null`. -/
def isNullWord (s : String) : Bool := ["null", "Null", "NULL", "~"].contains s

/-- The truth value that a text spells. -/
def boolWord? (s : String) : Option Bool :=
  if ["true", "True", "TRUE"].contains s then some true
  else if ["false", "False", "FALSE"].contains s then some false
  else none

/-- The text after an expected beginning. -/
def after? (start s : List Char) : Option (List Char) := Json.Reader.expect start s

/-- The text without one plus sign at the start. -/
def withoutPlus (s : List Char) : List Char := (after? ['+'] s).getD s

/-- Whether a text starts with a sign. -/
def startsWithSign (s : List Char) : Bool := s.head? = some '+' || s.head? = some '-'

/-- Whether a text consists of digits that start with a needless zero. Such a text is no number. -/
def hasNeedlessZero (s : List Char) : Bool :=
  match if startsWithSign s then s.tail else s with
  | '0' :: d :: ds => (d :: ds).all Char.isDigit
  | _ => false

/-- The value of a digit in bases up to sixteen. -/
def digitIn? (base : Nat) (c : Char) : Option Nat :=
  (Json.Reader.hexDigit? c).bind fun d => if d < base then some d else none

/-- The natural number that digits of a base denote; there must be some. -/
def naturalIn? (base : Nat) (ds : List Char) : Option Nat :=
  if ds.isEmpty then none else ds.foldlM (fun n d => (digitIn? base d).map (n * base + ·)) 0

/-- The bases that are marked at the start of a number. -/
def markedBases : List (List Char × Nat) := [(['0', 'x'], 16), (['0', 'o'], 8), (['0', 'b'], 2)]

/-- The natural number that a text with the mark of a base denotes. -/
def markedNatural? (s : List Char) : Option Nat :=
  markedBases.findSome? fun (mark, base) => (after? mark s).bind (naturalIn? base)

/-- How large an integer may get before its text counts as a double or as mere text. -/
def integerBound (negative : Bool) : Nat :=
  let size := UInt64.size * UInt64.size
  if negative then size / 2 + 1 else size

/-- The integer that a text denotes, perhaps with a sign: whether it is negative, and its
magnitude. -/
def integer? (s : List Char) : Option (Bool × Nat) :=
  let magnitude (negative : Bool) (ds : List Char) : Option (Bool × Nat) :=
    let n := (markedNatural? ds).or (if hasNeedlessZero ds then none else naturalIn? 10 ds)
    (n.filter (· < integerBound negative)).map (negative, ·)
  match after? ['-'] s with
  | some ds => magnitude true ds
  | none => magnitude false (withoutPlus s)

/-- The double that a text denotes: digits with a point among them or at either end, and perhaps an
exponent. The text has at most one sign, and the double is finite. -/
def double? (s : List Char) : Option Binary64 := do
  let (negative, s) :=
    match after? ['-'] s with
    | some rest => (true, rest)
    | none => (false, withoutPlus s)
  let (whole, s) := Json.Reader.digits s
  let (part, s) :=
    match s with
    | '.' :: rest => Json.Reader.digits rest
    | rest => ([], rest)
  if whole.isEmpty && part.isEmpty then none
  else
    let (power, rest) ← Json.Reader.exponent s
    if rest.isEmpty then
      Binary64.ofDecimal negative (Json.Reader.digitsValue (whole ++ part))
        (power.getD 0 - part.length)
    else none

/-- Whether a text spells a number that is not finite. -/
def isSpecialNumber (s : String) : Bool :=
  [".inf", ".Inf", ".INF", "+.inf", "+.Inf", "+.INF", "-.inf", "-.Inf", "-.INF", ".nan", ".NaN",
    ".NAN"].contains s

/-- The number that an integer is; `none` if it does not fit into 64 bits. -/
def numberOf? (negative : Bool) (magnitude : Nat) : Option Json :=
  if negative && magnitude ≠ 0 then
    if magnitude ≤ UInt64.size / 2 then some (.number (.negative magnitude.toUInt64)) else none
  else if magnitude < UInt64.size then some (.number (.natural magnitude.toUInt64))
  else none

/-- The number that a text denotes, if it is one. The value in it is `none` for an integer that does
not fit. -/
def number? (s : String) : Option (Option Json) :=
  let chars := s.toList
  match integer? chars with
  | some (negative, magnitude) => some (numberOf? negative magnitude)
  | none => none

/-- The value of a number written with a point or an exponent. -/
def doubleValue? (s : String) : Option Json :=
  if isSpecialNumber s then some .null
  else (double? s.toList).map fun x => .number (.double x)

/-- What a plain scalar stands for; `none` if it is refused. -/
def plainValue (s : String) : Option Json :=
  if s = "" || isNullWord s then some .null
  else
    match boolWord? s with
    | some b => some (.bool b)
    | none =>
      match number? s with
      | some v => v
      | none =>
        if hasNeedlessZero s.toList then some (.string s)
        else some ((doubleValue? s).getD (.string s))

/-! ## Tags -/

/-- A tag of the language itself. -/
def coreTag (name : String) : String := "tag:yaml.org,2002:" ++ name

/-- Whether a tag is a program's own. -/
def isLocalTag (tag : Option String) : Bool :=
  match tag with
  | some t => t.toList.head? = some '!'
  | none => false

/-- What a scalar stands for; `none` if it is refused. -/
def scalarValue (tag : Option String) (plain : Bool) (s : String) : Option Json :=
  if isLocalTag tag then none
  else
    match tag with
    | none => if plain then plainValue s else some (.string s)
    | some t =>
      if t = coreTag "bool" then (boolWord? s).map .bool
      else if t = coreTag "int" then (number? s).bind id
      else if t = coreTag "float" then doubleValue? s
      else if t = coreTag "null" then if isNullWord s then some .null else none
      else some (.string s)

/-! ## Nodes -/

namespace Node

/-- The text of a scalar, whatever it stands for. -/
def text? : Node → Option String
  | .scalar _ _ text => some text
  | _ => none

/-- How many lists and mappings may be open at once. -/
def nestingLimit : Nat := 128

mutual

/-- The value of a node inside which at most `depth` lists and mappings may be open at once. -/
def valueIn : Nat → Node → Option Json
  | _, .scalar tag plain text => scalarValue tag plain text
  | 0, .sequence _ _ => none
  | depth + 1, .sequence tag items =>
    if isLocalTag tag then none else (valuesIn depth items).map .array
  | 0, .mapping _ _ => none
  | depth + 1, .mapping tag entries =>
    if isLocalTag tag then none
    else (entriesIn depth entries).map fun fields => .object (OrderedMap.ofList fields).entries

/-- The values of the items of a list. -/
def valuesIn : Nat → List Node → Option (List Json)
  | _, [] => some []
  | depth, item :: rest => do
    let v ← valueIn depth item
    return v :: (← valuesIn depth rest)

/-- The entries of a mapping as named values; every key is a scalar and counts by its text. -/
def entriesIn : Nat → List (Node × Node) → Option (List (String × Json))
  | _, [] => some []
  | depth, (k, v) :: rest => do
    let name ← k.text?
    let value ← valueIn depth v
    return (name, value) :: (← entriesIn depth rest)

end

/-- The value of a node. -/
def value? (n : Node) : Option Json := n.valueIn nestingLimit

end Node

/-- The JSON value of a text; `null` where there is no document. -/
def readJson? (text : String) : Option Json :=
  match read? text with
  | none => none
  | some none => some .null
  | some (some n) => n.value?

end Concord.Yaml
