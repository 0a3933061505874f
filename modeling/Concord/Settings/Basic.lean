import Concord.Json.Basic
import Concord.Map.Ordered
import Concord.Plan.Order

/-!
# Settings

A repository may keep settings for the whole of it. Each setting may be left open. `Settings.read?`
builds settings from named values in whatever notation they are written, given how each kind of
value is read there.
-/

namespace Concord

/-- The settings of a repository. -/
structure Settings where
  /-- How reports are shown. -/
  output : Option String := none
  /-- The order of the passes. -/
  order : Option StageOrder := none
  /-- Where the catalog of rules is kept, as seen from the repository. -/
  catalog : Option String := none
  /-- Formatter options for what nothing else decides. -/
  fallback : Option (OrderedMap Json) := none
  /-- The extensions of linted files. -/
  extensions : Option (List String) := none

instance : Inhabited Settings := ⟨{}⟩

/-- How the values of a notation are read. Each reading fails on a value of the wrong kind and
answers none for a value that stands for nothing. -/
structure SettingReadings (ν : Type) where
  /-- A text. -/
  text : ν → Option (Option String)
  /-- An order of the passes. -/
  order : ν → Option (Option StageOrder)
  /-- Named values. -/
  table : ν → Option (Option (OrderedMap Json))
  /-- Texts. -/
  texts : ν → Option (Option (List String))

namespace Settings

/-- The names of the settings. -/
def names : List String := ["output", "order", "catalog", "fallback", "extensions"]

variable {ν : Type}

/-- Settings with one of them read from its value; unknown names change nothing. -/
def readField (r : SettingReadings ν) (s : Settings) (name : String) (v : ν) : Option Settings :=
  match name with
  | "output" => do return { s with output := ← r.text v }
  | "order" => do return { s with order := ← r.order v }
  | "catalog" => do return { s with catalog := ← r.text v }
  | "fallback" => do return { s with fallback := ← r.table v }
  | "extensions" => do return { s with extensions := ← r.texts v }
  | _ => some s

/-- The settings that named values describe. One value of the wrong kind spoils them all, and so
does a setting that is named twice. -/
def read? (r : SettingReadings ν) (fields : List (String × ν)) : Option Settings :=
  if ((fields.map Prod.fst).filter names.contains).Nodup then
    fields.foldlM (fun s field => s.readField r field.1 field.2) {}
  else none

end Settings

end Concord
