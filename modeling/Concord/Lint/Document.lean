import Concord.Lint.Config

/-!
# Configuration documents

A configuration is written as an object, or as a list of its fields in their order. Fields that are
missing keep their defaults and unknown fields are ignored. An override block is always an object;
its scope stands among the fields of its configuration. The written form leaves out what equals the
default, save the rules.
-/

namespace Concord

namespace LintSettings

/-- Settings with one field read from its value; other names than those of settings change
nothing. -/
def readField (s : LintSettings) (name : String) (v : Json) : Except DecodeError LintSettings :=
  match name with
  | "root" => do return { s with root := ← v.decodeBool }
  | "rules" => do return { s with rules := ← v.decodeSortedMap RuleEntry.decode }
  | "settings" => do return { s with settings := ← v.decodeObject }
  | "globals" => do return { s with globals := ← v.decodeSortedMap GlobalAccess.decode }
  | "env" => do return { s with env := ← v.decodeSortedMap Json.decodeBool }
  | "plugins" => do return { s with plugins := ← v.decodeStrings }
  | "parser" => do return { s with parser := ← v.decodeOptional Json.decodeString }
  | "parserOptions" => do return { s with parserOptions := ← v.decodeObject }
  | "extensions" => do return { s with extensions := ← v.decodeOptional Json.decodeStrings }
  | _ => .ok s

/-- The fields of settings as they are written. -/
def toFields (s : LintSettings) : List (String × Json) :=
  (if s.root then [("root", .bool true)] else [])
    ++ [("rules", Json.ofSortedMap RuleEntry.toJson s.rules)]
    ++ (if s.settings.isEmpty then [] else [("settings", Json.ofOrderedMap s.settings)])
    ++ (if s.globals.isEmpty then []
      else [("globals", Json.ofSortedMap GlobalAccess.toJson s.globals)])
    ++ (if s.env.isEmpty then [] else [("env", Json.ofSortedMap Json.bool s.env)])
    ++ (if s.plugins.isEmpty then [] else [("plugins", Json.strings s.plugins)])
    ++ (s.parser.map fun p => ("parser", Json.string p)).toList
    ++ (if s.parserOptions.isEmpty then []
      else [("parserOptions", Json.ofOrderedMap s.parserOptions)])
    ++ (s.extensions.map fun e => ("extensions", Json.strings e)).toList

end LintSettings

namespace Scope

/-- A scope with one field read from its value. -/
def readField (s : Scope) (name : String) (v : Json) : Except DecodeError Scope :=
  match name with
  | "files" => do return { s with files := ← v.decodeStrings }
  | "excludedFiles" => do return { s with excluded := ← v.decodeStrings }
  | _ => .ok s

/-- The scope among the fields of a block. -/
def decode (fields : List (String × Json)) : Except DecodeError Scope :=
  fields.foldlM (fun s field => s.readField field.1 field.2) {}

/-- The fields of a scope as they are written. -/
def toFields (s : Scope) : List (String × Json) :=
  ("files", Json.strings s.files)
    :: if s.excluded.isEmpty then [] else [("excludedFiles", Json.strings s.excluded)]

end Scope

/-! ## Reading -/

namespace LintConfig

mutual

/-- A configuration with one field read from its value. -/
def readField (c : LintConfig) (name : String) : Json → Except DecodeError LintConfig
  | .array items =>
    if name = "overrides" then do return { c with overrides := ← readBlocks items }
    else do return { c with toLintSettings := ← c.toLintSettings.readField name (.array items) }
  | v =>
    if name = "overrides" then .error .wrongShape
    else do return { c with toLintSettings := ← c.toLintSettings.readField name v }

/-- A configuration with fields read one after another. -/
def readFields (c : LintConfig) : List (String × Json) → Except DecodeError LintConfig
  | [] => .ok c
  | (name, v) :: rest => do
    let c ← readField c name v
    readFields c rest

/-- An override block. The scope is read before everything else. -/
def readBlock : Json → Except DecodeError OverrideBlock
  | .object fields => do
    let scope ← Scope.decode fields
    let config ← readFields {} fields
    return .mk scope config.toLintSettings config.overrides
  | _ => .error .wrongShape

/-- Override blocks in order. -/
def readBlocks : List Json → Except DecodeError (List OverrideBlock)
  | [] => .ok []
  | v :: rest => do
    let block ← readBlock v
    return block :: (← readBlocks rest)

end

/-- The fields of a configuration in the order in which a list gives their values. -/
def fieldNames : List String :=
  ["root", "rules", "settings", "globals", "env", "plugins", "parser", "parserOptions",
    "extensions", "overrides"]

/-- The configuration that a document describes. A list with more values than there are fields is
refused, but only after the fields have been read. -/
def decode : Json → Except DecodeError LintConfig
  | .object fields => readFields {} fields
  | .array values => do
    let c ← readFields {} (fieldNames.zip values)
    if values.length ≤ fieldNames.length then return c else throw .wrongShape
  | _ => .error .wrongShape

end LintConfig

/-! ## Writing -/

mutual

/-- The written form of an override block. -/
def OverrideBlock.toJson : OverrideBlock → Json
  | .mk scope settings blocks =>
    .object (scope.toFields ++ settings.toFields ++ overrideFields blocks)

/-- The written forms of override blocks. -/
def blocksToJson : List OverrideBlock → List Json
  | [] => []
  | block :: rest => block.toJson :: blocksToJson rest

/-- The field of the override blocks, if there are any. -/
def overrideFields : List OverrideBlock → List (String × Json)
  | [] => []
  | block :: rest => [("overrides", .array (block.toJson :: blocksToJson rest))]

end

namespace LintConfig

/-- The fields of a configuration as they are written. -/
def toFields (c : LintConfig) : List (String × Json) :=
  c.toLintSettings.toFields ++ overrideFields c.overrides

/-- The written form of a configuration. -/
def toJson (c : LintConfig) : Json := .object c.toFields

end LintConfig

end Concord
