import Concord.Toml.Scalar

/-!
# TOML documents

A document is a sequence of lines: headers open tables, and assignments put values into the table
that is open. A table grows only in the ways the language allows: a header may not open a table
twice, nor one that dotted keys have made, dotted keys put values only into tables that dotted keys
have made, and a value that is written out, brackets included, is closed.
-/

namespace Concord.Toml

/-! ## Tables under construction -/

/-- How a table came to be. -/
inductive TableOrigin where
  /-- A header opened it. -/
  | opened
  /-- It lies on the way to one that a header opened. -/
  | passed
  /-- Dotted keys made it. -/
  | dotted
deriving DecidableEq

/-- An entry of a table under construction. -/
inductive Item where
  /-- A closed value. -/
  | value (v : Value)
  /-- A table. -/
  | table (origin : TableOrigin) (entries : List (String × Item))
  /-- A list of tables that headers open one after another, the last one first. -/
  | tables (latest : List (String × Item)) (earlier : List (List (String × Item)))

/-- The entries of a table under construction. -/
abbrev Items := List (String × Item)

/-- Entries with the one at a name replaced or added. -/
def putItem (name : String) (item : Item) : Items → Items
  | [] => [(name, item)]
  | entry :: rest =>
    if entry.1 = name then (name, item) :: rest else entry :: putItem name item rest

mutual

/-- The value of an entry. -/
def Item.close : Item → Value
  | .value v => v
  | .table _ entries => .table (closeItems entries)
  | .tables latest earlier =>
    .array ((closeTables earlier).reverse ++ [.table (closeItems latest)])

/-- The values of the entries of a table. -/
def closeItems : List (String × Item) → List (String × Value)
  | [] => []
  | (name, item) :: rest => (name, item.close) :: closeItems rest

/-- The values of tables. -/
def closeTables : List (List (String × Item)) → List Value
  | [] => []
  | entries :: rest => .table (closeItems entries) :: closeTables rest

end

/-- Entries with a value at a dotted key. Tables on the way are made if they are missing, and a
list of tables is entered at its last one. The way may not lead through a table that a header has
opened, and the table that takes the value must be one that dotted keys have made. -/
def assign (v : Value) : List String → Items → Option Items
  | [], _ => none
  | [name], entries =>
    match entries.lookup name with
    | none => some (putItem name (.value v) entries)
    | some _ => none
  | name :: next :: rest, entries =>
    match entries.lookup name with
    | none =>
      (assign v (next :: rest) []).map fun below => putItem name (.table .dotted below) entries
    | some (.table origin below) =>
      if origin = .dotted || (origin = .passed && !rest.isEmpty) then
        (assign v (next :: rest) below).map fun below => putItem name (.table origin below) entries
      else none
    | some (.tables latest earlier) =>
      if rest.isEmpty then none
      else
        (assign v (next :: rest) latest).map fun latest =>
          putItem name (.tables latest earlier) entries
    | some (.value _) => none

/-- Entries in which the table at a path is changed by `f`, through the last of a list of tables
where there is one. Tables on the way are passed, and made if they are missing. -/
def within (f : Items → Option Items) : List String → Items → Option Items
  | [], entries => f entries
  | name :: rest, entries =>
    match entries.lookup name with
    | none => (within f rest []).map fun below => putItem name (.table .passed below) entries
    | some (.table origin below) =>
      (within f rest below).map fun below => putItem name (.table origin below) entries
    | some (.tables latest earlier) =>
      (within f rest latest).map fun latest => putItem name (.tables latest earlier) entries
    | some (.value _) => none

/-- Entries in which a header has opened the table with a name. -/
def openTable (name : String) (entries : Items) : Option Items :=
  match entries.lookup name with
  | none => some (putItem name (.table .opened []) entries)
  | some (.table .passed below) => some (putItem name (.table .opened below) entries)
  | some _ => none

/-- Entries in which a header has opened one more table of the list with a name. -/
def openNext (name : String) (entries : Items) : Option Items :=
  match entries.lookup name with
  | none => some (putItem name (.tables [] []) entries)
  | some (.tables latest earlier) => some (putItem name (.tables [] (latest :: earlier)) entries)
  | some _ => none

/-! ## Gaps, keys and values -/

/-- The text without leading blanks. -/
def skipBlanks (text : List Char) : List Char := text.dropWhile isBlank

/-- The text after a comment, if there is one; it ends before the line break. -/
def skipComment (text : List Char) : Option (List Char) :=
  match text with
  | '#' :: rest =>
    let after := rest.dropWhile isPrintable
    if after.isEmpty || (afterNewline? after).isSome then some after else none
  | text => some text

/-- The text after blanks, comments and line breaks. -/
def skipGap : Nat → List Char → Option (List Char)
  | 0, text => some text
  | fuel + 1, text => do
    let text ← skipComment (skipBlanks text)
    match afterNewline? text with
    | some rest => skipGap fuel rest
    | none => return text

/-- The text after the rest of a line: blanks and perhaps a comment. -/
def endLine (text : List Char) : Option (List Char) := do
  let text ← skipComment (skipBlanks text)
  if text.isEmpty then return [] else afterNewline? text

/-- Whether a character may occur in a key without quotes. -/
def isKeyChar (c : Char) : Bool := c.isAlphanum || c = '_' || c = '-'

/-- A key without dots. -/
def simpleKey (text : List Char) : Option (String × List Char) :=
  match text with
  | c :: _ =>
    if c = '"' || c = '\'' then lineString text
    else
      let name := text.takeWhile isKeyChar
      if name.isEmpty then none else some (String.ofList name, text.dropWhile isKeyChar)
  | [] => none

/-- A key, its parts separated by dots; `fuel` bounds their number. Blanks may surround the dots. -/
def key : Nat → List Char → Option (List String × List Char)
  | 0, _ => none
  | fuel + 1, text => do
    let (name, text) ← simpleKey (skipBlanks text)
    match skipBlanks text with
    | '.' :: rest =>
      let (more, rest) ← key fuel rest
      return (name :: more, rest)
    | rest => return ([name], rest)

/-- Items in brackets, each read by `item`, up to the closing bracket. Commas stand between them and
may follow the last. -/
def bracketed {α : Type} (closing : Char) (item : List Char → Option (α × List Char)) :
    Nat → List Char → Option (List α × List Char)
  | 0, _ => none
  | fuel + 1, text => do
    match ← skipGap text.length text with
    | [] => none
    | c :: rest =>
      if c = closing then return ([], rest)
      else
        let (first, rest) ← item (c :: rest)
        match ← skipGap rest.length rest with
        | ',' :: rest =>
          let (more, rest) ← bracketed closing item fuel rest
          return (first :: more, rest)
        | d :: rest => if d = closing then return ([first], rest) else none
        | [] => none

/-- A key, the sign after it and a value. -/
def assignment (value : List Char → Option (Value × List Char)) (text : List Char) :
    Option ((List String × Value) × List Char) := do
  let (path, text) ← key (text.length + 1) text
  match text with
  | '=' :: rest =>
    let (v, rest) ← value (skipBlanks rest)
    return ((path, v), rest)
  | _ => none

/-- The table that assignments in brackets describe. -/
def inlineTable (assignments : List (List String × Value)) : Option Value :=
  (assignments.foldlM (fun entries a => assign a.2 a.1 entries) []).map fun entries =>
    .table (closeItems entries)

/-- A value inside which at most `depth` brackets may be open at once. -/
def value : Nat → List Char → Option (Value × List Char)
  | depth, text =>
    match text with
    | '"' :: _ => (string text).map fun (s, rest) => (.string s, rest)
    | '\'' :: _ => (string text).map fun (s, rest) => (.string s, rest)
    | '[' :: rest =>
      match depth with
      | 0 => none
      | depth + 1 =>
        (bracketed ']' (value depth) (rest.length + 1) rest).map fun (items, rest) =>
          (.array items, rest)
    | '\x7b' :: rest =>
      match depth with
      | 0 => none
      | depth + 1 => do
        let (assignments, rest) ←
          bracketed '\x7d' (assignment (value depth)) (rest.length + 1) rest
        return (← inlineTable assignments, rest)
    | _ =>
      let (w, rest) := word text
      (wordValue? w).map (·, rest)

/-- How many brackets may be open at once. -/
def nestingLimit : Nat := 80

/-! ## Lines -/

/-- A document halfway through its lines. -/
structure Draft where
  /-- The table at the top. -/
  top : Items := []
  /-- The path of the table that is open. -/
  opened : List String := []

/-- A header: the path of a table in single or double brackets. -/
def header (text : List Char) : Option ((Bool × List String) × List Char) := do
  match text with
  | '[' :: '[' :: rest =>
    let (path, rest) ← key (rest.length + 1) rest
    match rest with
    | ']' :: ']' :: rest => return ((true, path), rest)
    | _ => none
  | '[' :: rest =>
    let (path, rest) ← key (rest.length + 1) rest
    match rest with
    | ']' :: rest => return ((false, path), rest)
    | _ => none
  | _ => none

/-- The draft after a header. -/
def Draft.open (d : Draft) (listed : Bool) (path : List String) : Option Draft := do
  let name ← path.getLast?
  let change := if listed then openNext name else openTable name
  return { top := ← within change path.dropLast d.top, opened := path }

/-- The draft after an assignment. -/
def Draft.assign (d : Draft) (path : List String) (v : Value) : Option Draft := do
  return { d with top := ← within (Toml.assign v path) d.opened d.top }

/-- The draft after all lines; `fuel` bounds their number. -/
def lines : Nat → Draft → List Char → Option Draft
  | 0, _, _ => none
  | fuel + 1, d, text => do
    match ← skipGap text.length text with
    | [] => return d
    | '[' :: rest =>
      let ((listed, path), rest) ← header ('[' :: rest)
      lines fuel (← d.open listed path) (← endLine rest)
    | text =>
      let ((path, v), rest) ← assignment (value nestingLimit) text
      lines fuel (← d.assign path v) (← endLine rest)

/-- The table that a text describes, or `none` if it is malformed. -/
def read? (text : String) : Option Value :=
  let chars := text.toList
  let chars := if chars.head? = some '\ufeff' then chars.tail else chars
  (lines (chars.length + 1) {} chars).map fun d => .table (closeItems d.top)

end Concord.Toml
