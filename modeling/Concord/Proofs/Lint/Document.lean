import Concord.Lint.Document
import Concord.Proofs.Json.Decode

/-!
# Reading a written configuration

What is written for a configuration is read back as the configuration, its override blocks at every
depth included (`LintConfig.readBlock_toJson`). A field is left out only if its setting is the
default, which is what reading starts from. A block is read twice, once for its scope and once for
its configuration, and each reading passes over the fields of the other.
-/

namespace Concord

theorem Severity.ofJson?_name (s : Severity) : ofJson? (.string s.name) = some s := by
  cases s <;> decide

/-- The severity and the options of a rule survive being written. -/
theorem RuleEntry.decode_toJson (r : RuleEntry) : decode r.toJson = .ok r := by
  obtain ⟨severity, options⟩ := r
  have hseverity := severity.ofJson?_name
  cases options with
  | nil => simp [toJson, decode, hseverity]
  | cons first rest => simp [toJson, decode, hseverity]

theorem GlobalAccess.decode_toJson (a : GlobalAccess) : decode a.toJson = .ok a := by
  cases a <;> rfl

/-! ## Written fields -/

/-- Named values in the order of the names, each name only if there is a value for it. -/
def fieldsOf (value? : String → Option Json) (names : List String) : List (String × Json) :=
  names.filterMap fun name => (value? name).map (name, ·)

theorem fieldsOf_nil (value? : String → Option Json) : fieldsOf value? [] = [] := rfl

theorem fieldsOf_cons (value? : String → Option Json) (name : String) (names : List String) :
    fieldsOf value? (name :: names) =
      ((value? name).map (name, ·)).toList ++ fieldsOf value? names := by
  unfold fieldsOf
  cases h : value? name <;> simp [h]

/-- A field is written exactly if its name is asked for and has that value. -/
theorem mem_fieldsOf {value? : String → Option Json} {names : List String} {name : String}
    {v : Json} : (name, v) ∈ fieldsOf value? names ↔ name ∈ names ∧ value? name = some v := by
  rw [fieldsOf, List.mem_filterMap]
  constructor
  · rintro ⟨key, hkey, hfield⟩
    obtain ⟨w, hw, hpair⟩ := Option.map_eq_some_iff.1 hfield
    obtain ⟨rfl, rfl⟩ := Prod.mk.inj hpair
    exact ⟨hkey, hw⟩
  · rintro ⟨hname, hv⟩
    exact ⟨name, hname, by rw [hv]; rfl⟩

namespace LintSettings

/-- The names of the settings in the order in which they are written. -/
def names : List String :=
  ["root", "rules", "settings", "globals", "env", "plugins", "parser", "parserOptions",
    "extensions"]

/-- What is written for the setting with a name; nothing for the default, save for the rules. -/
def written? (s : LintSettings) : String → Option Json
  | "root" => if s.root then some (.bool true) else none
  | "rules" => some (Json.ofSortedMap RuleEntry.toJson s.rules)
  | "settings" => if s.settings.isEmpty then none else some (Json.ofOrderedMap s.settings)
  | "globals" =>
    if s.globals.isEmpty then none else some (Json.ofSortedMap GlobalAccess.toJson s.globals)
  | "env" => if s.env.isEmpty then none else some (Json.ofSortedMap Json.bool s.env)
  | "plugins" => if s.plugins.isEmpty then none else some (Json.strings s.plugins)
  | "parser" => s.parser.map Json.string
  | "parserOptions" =>
    if s.parserOptions.isEmpty then none else some (Json.ofOrderedMap s.parserOptions)
  | "extensions" => s.extensions.map Json.strings
  | _ => none

/-- The fields of settings are those that have something to say, in the order of the names. -/
theorem toFields_eq (s : LintSettings) : s.toFields = fieldsOf s.written? names := by
  have hunless : ∀ (b : Bool) (name : String) (v : Json),
      (if b then [] else [(name, v)]) =
        ((if b then none else some v).map (name, ·)).toList := by
    intro b name v
    cases b <;> rfl
  have hroot : (if s.root then [("root", Json.bool true)] else []) =
      ((if s.root then some (Json.bool true) else none).map ("root", ·)).toList := by
    cases s.root <;> rfl
  have hparser : (s.parser.map fun p => ("parser", Json.string p)) =
      (s.parser.map Json.string).map ("parser", ·) := by
    rw [Option.map_map]
    rfl
  have hextensions : (s.extensions.map fun e => ("extensions", Json.strings e)) =
      (s.extensions.map Json.strings).map ("extensions", ·) := by
    rw [Option.map_map]
    rfl
  simp only [names, fieldsOf_cons, written?, toFields]
  rw [hunless, hunless, hunless, hunless, hunless, hroot, hparser, hextensions]
  simp only [List.append_assoc, fieldsOf_nil, List.append_nil]
  rfl

/-- Settings with the one of a name as in others. -/
def adopt (c s : LintSettings) : String → LintSettings
  | "root" => { c with root := s.root }
  | "rules" => { c with rules := s.rules }
  | "settings" => { c with settings := s.settings }
  | "globals" => { c with globals := s.globals }
  | "env" => { c with env := s.env }
  | "plugins" => { c with plugins := s.plugins }
  | "parser" => { c with parser := s.parser }
  | "parserOptions" => { c with parserOptions := s.parserOptions }
  | "extensions" => { c with extensions := s.extensions }
  | _ => c

theorem eq_of_unless_eq_some {b : Bool} {v w : Json}
    (h : (if b then none else some v) = some w) : v = w := by
  cases b with
  | true => cases h
  | false => exact Option.some.inj h

theorem of_unless_eq_none {b : Bool} {v : Json} (h : (if b then none else some v) = none) :
    b = true := by
  cases b with
  | true => rfl
  | false => cases h

/-- What is written for a setting is read back into it. -/
theorem readField_written {s : LintSettings} {name : String} {v : Json}
    (h : s.written? name = some v) (c : LintSettings) :
    c.readField name v = .ok (c.adopt s name) := by
  unfold written? at h
  split at h
  · cases hroot : s.root with
    | false => simp [hroot] at h
    | true =>
      rw [hroot, if_pos rfl] at h
      cases h
      show Except.ok { c with root := true } = Except.ok { c with root := s.root }
      rw [hroot]
  · cases h
    show (do return { c with rules := ← Json.decodeSortedMap _ _ }) = _
    rw [Json.decodeSortedMap_ofSortedMap RuleEntry.decode_toJson]
    rfl
  · cases eq_of_unless_eq_some h
    show (do return { c with settings := ← Json.decodeObject _ }) = _
    rw [Json.decodeObject_ofOrderedMap]
    rfl
  · cases eq_of_unless_eq_some h
    show (do return { c with globals := ← Json.decodeSortedMap _ _ }) = _
    rw [Json.decodeSortedMap_ofSortedMap GlobalAccess.decode_toJson]
    rfl
  · cases eq_of_unless_eq_some h
    show (do return { c with env := ← Json.decodeSortedMap _ _ }) = _
    rw [Json.decodeSortedMap_ofSortedMap Json.decodeBool_bool]
    rfl
  · cases eq_of_unless_eq_some h
    show (do return { c with plugins := ← Json.decodeStrings _ }) = _
    rw [Json.decodeStrings_strings]
    rfl
  · obtain ⟨parser, hparser, rfl⟩ := Option.map_eq_some_iff.1 h
    show Except.ok { c with parser := some parser } = Except.ok { c with parser := s.parser }
    rw [hparser]
  · cases eq_of_unless_eq_some h
    show (do return { c with parserOptions := ← Json.decodeObject _ }) = _
    rw [Json.decodeObject_ofOrderedMap]
    rfl
  · obtain ⟨extensions, hextensions, rfl⟩ := Option.map_eq_some_iff.1 h
    show (do return { c with extensions := ← (Json.decodeStrings _).map some }) =
      Except.ok { c with extensions := s.extensions }
    rw [Json.decodeStrings_strings, hextensions]
    rfl
  · cases h

/-- A setting is left out only if it is the default. -/
theorem adopt_of_unwritten {s : LintSettings} {name : String} (h : s.written? name = none)
    (c : LintSettings) : c.adopt s name = c.adopt {} name := by
  unfold written? at h
  split at h
  · cases hroot : s.root with
    | false =>
      show { c with root := s.root } = { c with root := false }
      rw [hroot]
    | true => simp [hroot] at h
  · cases h
  · show { c with settings := s.settings } = { c with settings := .empty }
    rw [OrderedMap.eq_empty_of_isEmpty (of_unless_eq_none h)]
  · show { c with globals := s.globals } = { c with globals := .empty }
    rw [SortedMap.eq_empty_of_isEmpty (of_unless_eq_none h)]
  · show { c with env := s.env } = { c with env := .empty }
    rw [SortedMap.eq_empty_of_isEmpty (of_unless_eq_none h)]
  · show { c with plugins := s.plugins } = { c with plugins := [] }
    rw [List.isEmpty_iff.1 (of_unless_eq_none h)]
  · show { c with parser := s.parser } = { c with parser := none }
    rw [Option.map_eq_none_iff.1 h]
  · show { c with parserOptions := s.parserOptions } = { c with parserOptions := .empty }
    rw [OrderedMap.eq_empty_of_isEmpty (of_unless_eq_none h)]
  · show { c with extensions := s.extensions } = { c with extensions := none }
    rw [Option.map_eq_none_iff.1 h]
  · next hroot hrules hsettings hglobals henv hplugins hparser hoptions hextensions =>
    simp only [adopt]

end LintSettings

/-! ## Reading settings -/

namespace LintConfig

/-- Names other than that of the override blocks are read into the settings. -/
theorem readField_of_ne {name : String} (hname : name ≠ "overrides") (c : LintConfig) (v : Json) :
    c.readField name v =
      (c.toLintSettings.readField name v).map fun s => { c with toLintSettings := s } := by
  have hdo : ∀ x : Except DecodeError LintSettings,
      (do return { c with toLintSettings := ← x } : Except DecodeError LintConfig) =
        x.map fun s => { c with toLintSettings := s } := by
    intro x
    cases x <;> rfl
  cases v with
  | array items => rw [readField, if_neg hname, hdo]
  | _ => rw [readField, if_neg hname, hdo]; simp

theorem readFields_nil (c : LintConfig) : c.readFields [] = .ok c := by
  rw [readFields]

/-- Fields are read one after another, the first failure being the last thing that happens. -/
theorem readFields_append (c : LintConfig) (fields rest : List (String × Json)) :
    c.readFields (fields ++ rest) = c.readFields fields >>= fun next => next.readFields rest := by
  induction fields generalizing c with
  | nil =>
    rw [List.nil_append, readFields]
    rfl
  | cons field others ih =>
    obtain ⟨name, v⟩ := field
    rw [List.cons_append, readFields, readFields]
    cases c.readField name v with
    | error failure => rfl
    | ok next => exact ih next

theorem readFields_singleton (c : LintConfig) (name : String) (v : Json) :
    c.readFields [(name, v)] = c.readField name v := by
  rw [readFields]
  cases c.readField name v with
  | error failure => rfl
  | ok next => exact readFields_nil next

/-- One name more: where the setting still is the default, it becomes the written one. -/
theorem readFields_fieldsOf_cons {s c next : LintSettings} {name : String} {names : List String}
    (hname : name ≠ "overrides") (hdefault : c.adopt {} name = c) (hnext : c.adopt s name = next) :
    readFields { toLintSettings := c } (fieldsOf s.written? (name :: names)) =
      readFields { toLintSettings := next } (fieldsOf s.written? names) := by
  have hfirst : readFields { toLintSettings := c } ((s.written? name).map (name, ·)).toList =
      .ok { toLintSettings := next } := by
    cases h : s.written? name with
    | none =>
      rw [← hnext, LintSettings.adopt_of_unwritten h, hdefault]
      exact readFields_nil _
    | some v =>
      refine (readFields_singleton _ name v).trans ?_
      rw [readField_of_ne hname, LintSettings.readField_written h, hnext]
      rfl
  rw [fieldsOf_cons, readFields_append, hfirst]
  rfl

/-- From the default configuration, the fields of settings lead to the settings. -/
theorem readFields_toFields (s : LintSettings) :
    readFields {} s.toFields = .ok { toLintSettings := s } := by
  obtain ⟨root, rules, settings, globals, env, plugins, parser, parserOptions, extensions⟩ := s
  rw [LintSettings.toFields_eq, LintSettings.names]
  calc
    _ = readFields { root } _ := readFields_fieldsOf_cons (by decide) rfl rfl
    _ = readFields { root, rules } _ := readFields_fieldsOf_cons (by decide) rfl rfl
    _ = readFields { root, rules, settings } _ :=
        readFields_fieldsOf_cons (by decide) rfl rfl
    _ = readFields { root, rules, settings, globals } _ :=
        readFields_fieldsOf_cons (by decide) rfl rfl
    _ = readFields { root, rules, settings, globals, env } _ :=
        readFields_fieldsOf_cons (by decide) rfl rfl
    _ = readFields { root, rules, settings, globals, env, plugins } _ :=
        readFields_fieldsOf_cons (by decide) rfl rfl
    _ = readFields { root, rules, settings, globals, env, plugins, parser } _ :=
        readFields_fieldsOf_cons (by decide) rfl rfl
    _ = readFields { root, rules, settings, globals, env, plugins, parser, parserOptions } _ :=
        readFields_fieldsOf_cons (by decide) rfl rfl
    _ = readFields _ [] := readFields_fieldsOf_cons (by decide) rfl rfl
    _ = _ := readFields_nil _

end LintConfig

/-! ## Scopes among other fields -/

/-- Settings pass over names that are not theirs. -/
theorem LintSettings.readField_of_notMem {name : String} (h : name ∉ names) (s : LintSettings)
    (v : Json) : s.readField name v = .ok s := by
  simp only [names, List.mem_cons, List.not_mem_nil, or_false, not_or] at h
  obtain ⟨hroot, hrules, hsettings, hglobals, henv, hplugins, hparser, hoptions, hext⟩ := h
  unfold readField
  split <;> first | contradiction | rfl

theorem LintConfig.readFields_of_notMem {fields : List (String × Json)}
    (h : ∀ field ∈ fields, field.1 ∉ fieldNames) (c : LintConfig) :
    c.readFields fields = .ok c := by
  induction fields with
  | nil => exact readFields_nil c
  | cons field rest ih =>
    obtain ⟨name, v⟩ := field
    obtain ⟨hfirst, hrest⟩ := List.forall_mem_cons.1 h
    have hblocks : name ≠ "overrides" := by
      rintro rfl
      exact hfirst (by simp [fieldNames])
    have hsetting : name ∉ LintSettings.names := fun hmem =>
      hfirst (List.mem_append_left ["overrides"] hmem)
    have hfield : c.readField name v = .ok c := by
      rw [readField_of_ne hblocks, LintSettings.readField_of_notMem hsetting]
      rfl
    rw [readFields, hfield]
    exact ih hrest

namespace Scope

/-- The names of the fields of a scope. -/
def names : List String := ["files", "excludedFiles"]

/-- A scope is written under its own names. -/
theorem name_mem_of_mem_toFields {s : Scope} {field : String × Json} (h : field ∈ s.toFields) :
    field.1 ∈ names := by
  unfold toFields at h
  split at h <;> simp only [List.mem_cons, List.not_mem_nil, or_false] at h
  · simp [h, names]
  · rcases h with rfl | rfl <;> simp [names]

theorem foldlM_of_notMem {fields : List (String × Json)} (h : ∀ field ∈ fields, field.1 ∉ names)
    (s : Scope) : fields.foldlM (fun s field => s.readField field.1 field.2) s = .ok s := by
  induction fields with
  | nil => rfl
  | cons field rest ih =>
    obtain ⟨hfirst, hrest⟩ := List.forall_mem_cons.1 h
    simp only [names, List.mem_cons, List.not_mem_nil, or_false, not_or] at hfirst
    obtain ⟨hfiles, hexcluded⟩ := hfirst
    have hfield : s.readField field.1 field.2 = .ok s := by
      unfold readField
      split <;> first | contradiction | rfl
    rw [List.foldlM_cons, hfield]
    exact ih hrest

/-- What a scope is written as is read back as that scope. -/
theorem decode_toFields (s : Scope) : decode s.toFields = .ok s := by
  obtain ⟨files, excluded⟩ := s
  cases excluded with
  | nil =>
    simp [decode, toFields, readField, Json.decodeStrings_strings, bind, Except.bind, pure,
      Except.pure]
  | cons first rest =>
    simp [decode, toFields, readField, Json.decodeStrings_strings, bind, Except.bind, pure,
      Except.pure]

/-- The scope is read from its fields, wherever other fields follow. -/
theorem decode_append (s : Scope) {fields : List (String × Json)}
    (h : ∀ field ∈ fields, field.1 ∉ names) : decode (s.toFields ++ fields) = .ok s := by
  have hown := s.decode_toFields
  unfold decode at hown ⊢
  rw [List.foldlM_append, hown]
  exact foldlM_of_notMem h s

end Scope

/-! ## Blocks -/

namespace LintConfig

theorem name_of_mem_overrideFields {blocks : List OverrideBlock} {field : String × Json}
    (h : field ∈ overrideFields blocks) : field.1 = "overrides" := by
  cases blocks with
  | nil => cases h
  | cons block rest =>
    rw [overrideFields, List.mem_singleton] at h
    rw [h]

/-- Within a block, the fields of its configuration are none of its scope. -/
theorem notMem_scope_names {s : LintSettings} {blocks : List OverrideBlock} {field : String × Json}
    (h : field ∈ s.toFields ++ overrideFields blocks) : field.1 ∉ Scope.names := by
  have hdisjoint : ∀ name ∈ LintSettings.names, name ∉ Scope.names := by decide
  rcases List.mem_append.1 h with h | h
  · rw [s.toFields_eq] at h
    exact hdisjoint _ (mem_fieldsOf.1 h).1
  · rw [name_of_mem_overrideFields h]
    decide

/-- Reading a configuration passes over the fields of a scope. -/
theorem readFields_scope (s : Scope) (c : LintConfig) : c.readFields s.toFields = .ok c := by
  have hdisjoint : ∀ name ∈ Scope.names, name ∉ fieldNames := by decide
  exact readFields_of_notMem (fun _ h => hdisjoint _ (Scope.name_mem_of_mem_toFields h)) c

/-- The fields of a configuration are read back once its blocks are. -/
theorem readFields_of_readBlocks (s : LintSettings) {blocks : List OverrideBlock}
    (h : readBlocks (blocksToJson blocks) = .ok blocks) :
    readFields {} (s.toFields ++ overrideFields blocks) = .ok ⟨s, blocks⟩ := by
  rw [readFields_append, readFields_toFields]
  show readFields { toLintSettings := s } (overrideFields blocks) = _
  cases blocks with
  | nil => exact readFields_nil _
  | cons block rest =>
    rw [blocksToJson] at h
    rw [overrideFields, readFields_singleton, readField, if_pos rfl, h]
    rfl

mutual

/-- A block is read back, together with the blocks inside it. -/
theorem readBlock_toJson : ∀ block : OverrideBlock, readBlock block.toJson = .ok block
  | .mk scope settings blocks => by
    -- The block is read twice, and each reading passes over what the other one reads.
    have hscope : Scope.decode (scope.toFields ++ (settings.toFields ++ overrideFields blocks)) =
        .ok scope := scope.decode_append fun _ h => notMem_scope_names h
    have hconfig : readFields {} (scope.toFields ++ (settings.toFields ++ overrideFields blocks)) =
        .ok ⟨settings, blocks⟩ := by
      rw [readFields_append, readFields_scope]
      exact readFields_of_readBlocks settings (readBlocks_blocksToJson blocks)
    rw [OverrideBlock.toJson, List.append_assoc, readBlock, hscope, hconfig]
    rfl

theorem readBlocks_blocksToJson :
    ∀ blocks : List OverrideBlock, readBlocks (blocksToJson blocks) = .ok blocks
  | [] => by rw [blocksToJson, readBlocks]
  | block :: rest => by
    rw [blocksToJson, readBlocks, readBlock_toJson block, readBlocks_blocksToJson rest]
    rfl

end

/-- A configuration is read back from its written form, however deep its blocks are nested. -/
theorem decode_toJson (c : LintConfig) : decode c.toJson = .ok c :=
  readFields_of_readBlocks c.toLintSettings (readBlocks_blocksToJson c.overrides)

end LintConfig
end Concord
