import Concord.Yaml.Token

/-!
# YAML documents

The tokens of a text form at most one document, whose content is a node: a scalar, a list or a
mapping, perhaps with a tag. A reference stands for the node with its name, as it was when the
reference was read; a node cannot refer to itself.
-/

namespace Concord.Yaml

/-- A node of a document. -/
inductive Node where
  /-- A scalar; a plain one may stand for something else than its text. -/
  | scalar (tag : Option String) (plain : Bool) (text : String)
  /-- A list of nodes. -/
  | sequence (tag : Option String) (items : List Node)
  /-- Keys with their values, in written order. -/
  | mapping (tag : Option String) (entries : List (Node × Node))

/-- The node of a place where nothing is written. -/
def Node.nothing : Node := .scalar none true ""

instance : Inhabited Node := ⟨.nothing⟩

/-- What is known halfway through the tokens of a document. -/
structure Parse where
  /-- The tokens that are left. -/
  tokens : List Token
  /-- The named nodes, latest first. -/
  anchors : List (String × Node) := []
  /-- The handles for tags. -/
  handles : List (String × String)

namespace Parse

/-- The handles that every document knows. -/
def defaultHandles : List (String × String) := [("!", "!"), ("!!", "tag:yaml.org,2002:")]

/-- The next token. -/
def head? (p : Parse) : Option Token := p.tokens.head?

/-- Whether the next token is one of a few. -/
def sees (p : Parse) (ts : List Token) : Bool :=
  match p.head? with
  | some t => ts.contains t
  | none => false

/-- The parse with the next token passed. -/
def skip (p : Parse) : Parse := { p with tokens := p.tokens.tail }

/-- The anchor before a node, if there is one. -/
def anchor (p : Parse) : Option String × Parse :=
  match p.tokens with
  | .anchor name :: rest => (some name, { p with tokens := rest })
  | _ => (none, p)

/-- The tag before a node, if there is one; its handle must be known. -/
def tag (p : Parse) : Option (Option String × Parse) :=
  match p.tokens with
  | .tag handle suffix :: rest =>
    let p := { p with tokens := rest }
    if handle = "" then some (some suffix, p)
    else (p.handles.lookup handle).map fun start => (some (start ++ suffix), p)
  | _ => some (none, p)

/-- The anchor and the tag before a node, in either order. -/
def properties (p : Parse) : Option (Option String × Option String × Parse) := do
  let (anchor, p) := p.anchor
  let (tag, p) ← p.tag
  match anchor with
  | some _ => return (anchor, tag, p)
  | none =>
    if tag.isSome then
      let (anchor, p) := p.anchor
      return (anchor, tag, p)
    else return (none, none, p)

/-- The parse in which a name, if there is one, has no node. -/
def forget (p : Parse) : Option String → Parse
  | some name => { p with anchors := p.anchors.filter fun entry => entry.1 ≠ name }
  | none => p

/-- The parse in which a name, if there is one, has a node. -/
def remember (p : Parse) (node : Node) : Option String → Parse
  | some name => { p with anchors := (name, node) :: p.anchors }
  | none => p

/-- The node of a place where nothing is written, if that is allowed. -/
def nothing (optional : Bool) (tag : Option String) (p : Parse) : Option (Node × Parse) :=
  if optional then some (.scalar tag true "", p) else none

mutual

/-- A node. Where `block`, it may be laid out by indentation; where `indentless`, it may be a list
whose dashes stand no deeper than the key before it. -/
def node (block indentless : Bool) : Nat → Parse → Option (Node × Parse)
  | 0, _ => none
  | fuel + 1, p =>
    match p.head? with
    | some (.alias name) => (p.anchors.lookup name).map (·, p.skip)
    | _ => do
      let (anchor, tag, p) ← p.properties
      let p := p.forget anchor
      let (n, p) ← content block indentless (anchor.isSome || tag.isSome) tag fuel p
      return (n, p.remember n anchor)

/-- What comes after the properties of a node; nothing need come where `optional`. -/
def content (block indentless optional : Bool) (tag : Option String) :
    Nat → Parse → Option (Node × Parse)
  | 0, _ => none
  | fuel + 1, p =>
    match p.head? with
    | some (.scalar plain text) => some (.scalar tag plain text, p.skip)
    | some .flowSequenceStart => do
      let (items, p) ← flowItems true fuel p.skip
      return (.sequence tag items, p)
    | some .flowMappingStart => do
      let (entries, p) ← flowEntries true fuel p.skip
      return (.mapping tag entries, p)
    | some .blockSequenceStart =>
      if block then do
        let (items, p) ← blockItems fuel p.skip
        return (.sequence tag items, p)
      else nothing optional tag p
    | some .blockMappingStart =>
      if block then do
        let (entries, p) ← blockEntries fuel p.skip
        return (.mapping tag entries, p)
      else nothing optional tag p
    | some .blockEntry =>
      if indentless then do
        let (items, p) ← indentlessItems fuel p
        return (.sequence tag items, p)
      else nothing optional tag p
    | _ => nothing optional tag p

/-- A node, or nothing where one of a few tokens is next. -/
def nodeUnless (ends : List Token) (block indentless : Bool) : Nat → Parse → Option (Node × Parse)
  | 0, _ => none
  | fuel + 1, p => if p.sees ends then some (.nothing, p) else node block indentless fuel p

/-- The items of a list laid out by indentation. -/
def blockItems : Nat → Parse → Option (List Node × Parse)
  | 0, _ => none
  | fuel + 1, p =>
    match p.head? with
    | some .blockEntry => do
      let (item, p) ← nodeUnless [.blockEntry, .blockEnd] true false fuel p.skip
      let (more, p) ← blockItems fuel p
      return (item :: more, p)
    | some .blockEnd => some ([], p.skip)
    | _ => none

/-- The items of a list whose dashes stand no deeper than the key before it. -/
def indentlessItems : Nat → Parse → Option (List Node × Parse)
  | 0, _ => none
  | fuel + 1, p =>
    match p.head? with
    | some .blockEntry => do
      let (item, p) ← nodeUnless [.blockEntry, .key, .value, .blockEnd] true false fuel p.skip
      let (more, p) ← indentlessItems fuel p
      return (item :: more, p)
    | _ => some ([], p)

/-- The entries of a mapping laid out by indentation. -/
def blockEntries : Nat → Parse → Option (List (Node × Node) × Parse)
  | 0, _ => none
  | fuel + 1, p =>
    match p.head? with
    | some .key => do
      let ends := [.key, .value, .blockEnd]
      let (k, p) ← nodeUnless ends true true fuel p.skip
      let (v, p) ← valueUnless ends true fuel p
      let (more, p) ← blockEntries fuel p
      return ((k, v) :: more, p)
    | some .blockEnd => some ([], p.skip)
    | _ => none

/-- The value after a key, if there is one. -/
def valueUnless (ends : List Token) (block : Bool) : Nat → Parse → Option (Node × Parse)
  | 0, _ => none
  | fuel + 1, p =>
    if p.sees [.value] then nodeUnless ends block block fuel p.skip else some (.nothing, p)

/-- The items in brackets, up to the closing one; one that has a key is a mapping of its own. -/
def flowItems (first : Bool) : Nat → Parse → Option (List Node × Parse)
  | 0, _ => none
  | fuel + 1, p =>
    if p.sees [.flowSequenceEnd] then some ([], p.skip)
    else if !first && !p.sees [.flowEntry] then none
    else
      let p := if first then p else p.skip
      match p.head? with
      | some .flowSequenceEnd => some ([], p.skip)
      | some .key => do
        let (k, p) ← nodeUnless [.value, .flowEntry, .flowSequenceEnd] false false fuel p.skip
        let (v, p) ← valueUnless [.flowEntry, .flowSequenceEnd] false fuel p
        let (more, p) ← flowItems false fuel p
        return (.mapping none [(k, v)] :: more, p)
      | _ => do
        let (item, p) ← node false false fuel p
        let (more, p) ← flowItems false fuel p
        return (item :: more, p)

/-- The entries in brackets, up to the closing one; one without a key has no value. -/
def flowEntries (first : Bool) : Nat → Parse → Option (List (Node × Node) × Parse)
  | 0, _ => none
  | fuel + 1, p =>
    if p.sees [.flowMappingEnd] then some ([], p.skip)
    else if !first && !p.sees [.flowEntry] then none
    else
      let p := if first then p else p.skip
      match p.head? with
      | some .flowMappingEnd => some ([], p.skip)
      | some .key => do
        let (k, p) ← nodeUnless [.value, .flowEntry, .flowMappingEnd] false false fuel p.skip
        let (v, p) ← valueUnless [.flowEntry, .flowMappingEnd] false fuel p
        let (more, p) ← flowEntries false fuel p
        return ((k, v) :: more, p)
      | _ => do
        let (k, p) ← node false false fuel p
        let (more, p) ← flowEntries false fuel p
        return ((k, .nothing) :: more, p)

end

/-- The directives before a document: at most one version, which must be 1.1 or 1.2, and handles
that are declared once each. `declared` lists what has been declared so far. -/
def directives (versioned : Bool) (declared : List (String × String)) :
    List Token → Option (Bool × List (String × String) × List Token)
  | .version major minor :: rest =>
    if versioned || major ≠ 1 || (minor ≠ 1 && minor ≠ 2) then none
    else directives true declared rest
  | .handle name start :: rest =>
    if (declared.lookup name).isSome then none
    else directives versioned ((name, start) :: declared) rest
  | rest => some (versioned, declared, rest)

/-- Whether nothing but ends of documents is left. -/
def isOver (tokens : List Token) : Bool :=
  match tokens.dropWhile (· = .documentEnd) with
  | [.streamEnd] => true
  | _ => false

/-- The only document among tokens, `none` in it if there is no document at all. -/
def document (tokens : List Token) : Option (Option Node) := do
  match tokens with
  | [.streamEnd] => return none
  | _ =>
    let (versioned, declared, rest) ← directives false [] tokens
    let explicit := versioned || !declared.isEmpty || rest.head? = some .documentStart
    let handles := declared ++ defaultHandles
    let fuel := 4 * tokens.length + 8
    if !explicit then
      let (n, p) ← node true false fuel { tokens := rest, handles }
      if isOver p.tokens then return some n else none
    else if rest.head? = some .documentStart then
      let p : Parse := { tokens := rest.tail, handles }
      let starts : Bool :=
        match p.head? with
        | some (.version _ _) | some (.handle _ _) => true
        | _ => false
      let (n, p) ←
        if starts || p.sees [.documentStart, .documentEnd, .streamEnd] then pure (Node.nothing, p)
        else node true false fuel p
      if isOver p.tokens then return some n else none
    else none

end Parse

/-- The content of the only document of a text: `none` if the text is malformed or has several
documents, and no node if it has none. -/
def read? (text : String) : Option (Option Node) := (tokens? text).bind Parse.document

end Concord.Yaml
