import Concord.Catalog.Reader
import Concord.Disk.Basic
import Concord.Format.Options
import Concord.Json.Reader
import Concord.Lint.Document
import Concord.Toml.Document
import Concord.Yaml.Value

/-!
# Configuration files

A configuration file is a document in one of three notations, told apart by the extension of its
name. Whatever the notation, what the document says is a JSON value, and a configuration is read
from that. Only a catalog has one notation and is read straight from its text.
-/

namespace Concord

/-- A notation for documents. -/
inductive Notation where
  /-- JSON. -/
  | json
  /-- TOML. -/
  | toml
  /-- YAML. -/
  | yaml
deriving DecidableEq, Repr

namespace Notation

/-- The notation of a file, by its extension. All but two extensions stand for YAML, and so does a
name without one. -/
def ofPath (p : Path) : Notation :=
  match p.extension? with
  | some "json" => .json
  | some "toml" => .toml
  | _ => .yaml

/-- What a text in the notation says. -/
def read? : Notation → String → Option Json
  | .json, text => Json.read? text
  | .toml, text => (Toml.read? text).map (·.toJson)
  | .yaml, text => Yaml.readJson? text

end Notation

/-- The formatter options that a document describes. An empty document has none. -/
def FormatOptions.decode : Json → Except DecodeError FormatOptions
  | .object fields => .ok (.ofFields fields)
  | .null => .ok .empty
  | _ => .error .notATable

/-- What a text in a notation describes, read by `decode`. -/
def Notation.decode {α : Type} (n : Notation) (decode : Json → Except DecodeError α)
    (text : String) : Except ParseFailure α :=
  match n.read? text with
  | none => .error .malformed
  | some v => (decode v).mapError .refused

namespace Disk

/-- What `parse` makes of the text of a file. -/
def load {α : Type} (d : Disk) (p : Path) (parse : String → Except ParseFailure α) :
    Except LookupFailure α :=
  match d.readText p with
  | .error reason => .error (.read p reason)
  | .ok text => (parse text).mapError (.parse p)

/-- The linter configuration in a file. -/
def loadLintConfig (d : Disk) (p : Path) : Except LookupFailure LintConfig :=
  d.load p ((Notation.ofPath p).decode LintConfig.decode)

/-- The formatter options in a file. -/
def loadFormatOptions (d : Disk) (p : Path) : Except LookupFailure FormatOptions :=
  d.load p ((Notation.ofPath p).decode FormatOptions.decode)

/-- The catalog in a file. -/
def loadCatalog (d : Disk) (p : Path) : Except LookupFailure Catalog := d.load p Catalog.read

end Disk

end Concord
