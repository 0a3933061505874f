import Concord.Settings.Basic
import Concord.Toml.Document
import Concord.Yaml.Value

/-!
# Settings in their two notations

In TOML every value has the kind that is asked for or spoils the settings. In YAML a scalar that
stands for nothing leaves a setting open, and where a text is asked for any other scalar counts by
its text, whatever else it could stand for.
-/

namespace Concord

namespace Toml.Value

/-- The text, if the value is one. -/
def text? : Value → Option String
  | .string s => some s
  | _ => none

/-- Whether the value is a table or a list without entries. -/
def isVacant : Value → Bool
  | .array items => items.isEmpty
  | .table entries => entries.isEmpty
  | _ => false

/-- The name that a value chooses: a text, or the only name in a table, with nothing under it. -/
def choice? : Value → Option String
  | .string s => some s
  | .table [(name, v)] => if v.isVacant then some name else none
  | _ => none

/-- How TOML values are read as settings. -/
def readings : SettingReadings Value where
  text v := v.text?.map some
  order v := (v.choice?.bind StageOrder.ofName?).map some
  table v := (v.toJson.object?.map OrderedMap.ofList).map some
  texts
    | .array items => (items.mapM text?).map some
    | _ => none

end Toml.Value

namespace Yaml.Node

/-- The reading of a node by `read`, unless it is a scalar that stands for nothing. -/
def unlessNull {α : Type} (read : Node → Option α) (n : Node) : Option (Option α) :=
  match n with
  | .scalar tag true text =>
    match tag with
    | none => if text = "" || isNullWord text then some none else (read n).map some
    | some t =>
      if t = coreTag "null" then if isNullWord text then some none else none
      else (read n).map some
  | n => (read n).map some

/-- The items of a list; where nothing is written there are none. -/
def items? : Node → Option (List Node)
  | .sequence _ items => some items
  | .scalar _ true "" => some []
  | _ => none

/-- The entries of a mapping; where nothing is written there are none. -/
def entries? : Node → Option (List (Node × Node))
  | .mapping _ entries => some entries
  | .scalar _ true "" => some []
  | _ => none

/-- The name that a scalar chooses: its text, or a tag with nothing after it. -/
def choice? : Node → Option String
  | .scalar (some tag) plain text =>
    match tag.toList with
    | '!' :: c :: rest =>
      if plain && (text = "" || isNullWord text) then some (String.ofList (c :: rest)) else none
    | _ => some text
  | .scalar none _ text => some text
  | _ => none

/-- How many lists and mappings may be open inside a setting. -/
def settingDepth : Nat := nestingLimit - 1

/-- How YAML nodes are read as settings. -/
def readings : SettingReadings Node where
  text := unlessNull text?
  order := unlessNull fun n => n.choice?.bind StageOrder.ofName?
  table := unlessNull fun n => do
    return OrderedMap.ofList (← entriesIn (settingDepth - 1) (← n.entries?))
  texts := unlessNull fun n => do (← n.items?).mapM text?

end Yaml.Node

namespace Settings

/-- The settings that a TOML text describes. -/
def ofToml? (text : String) : Option Settings :=
  match Toml.read? text with
  | some (.table entries) => read? Toml.Value.readings entries
  | _ => none

/-- The settings that a YAML text describes. -/
def ofYaml? (text : String) : Option Settings := do
  match ← Yaml.read? text with
  | none => return {}
  | some n =>
    let fields ← (← n.entries?).mapM fun (k, v) => k.text?.map (·, v)
    read? Yaml.Node.readings fields

end Settings

end Concord
