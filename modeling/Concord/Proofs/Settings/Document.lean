import Concord.Proofs.Map.Entries
import Concord.Settings.Document
import Mathlib.Data.List.Forall2

/-!
# What settings files say

`Settings.Describe` says of each setting what it comes to in a document: the reading of its field,
or nothing if it has none. A document describes settings exactly if every field with a recognised
name can be read and none stands twice (`Settings.read?_eq_some_iff`), so that one malformed field
spoils them all (`Settings.not_describe_of_malformed`).
-/

namespace Concord

variable {ν α : Type}

/-- What the field with a name comes to: the reading of its value, or `start` where there is none. -/
def fieldFrom (read : ν → Option (Option α)) (fields : List (String × ν)) (name : String)
    (start : Option α) : Option (Option α) :=
  (fields.lookup name).elim (some start) read

theorem fieldFrom_cons_self (read : ν → Option (Option α)) {fields : List (String × ν)}
    {name : String} (v : ν) (start : Option α) :
    fieldFrom read ((name, v) :: fields) name start = read v := by
  rw [fieldFrom, lookup_cons_eq, if_pos rfl, Option.elim_some]

/-- A field under another name does not matter. -/
theorem fieldFrom_cons_ne (read : ν → Option (Option α)) {fields : List (String × ν)}
    {name other : String} (h : name ≠ other) (v : ν) (start : Option α) :
    fieldFrom read ((other, v) :: fields) name start = fieldFrom read fields name start := by
  rw [fieldFrom, fieldFrom, lookup_cons_eq, if_neg h]

/-- A setting that is not named stays as it is. -/
theorem fieldFrom_of_notMem (read : ν → Option (Option α)) {fields : List (String × ν)}
    {name : String} (h : name ∉ fields.map Prod.fst) (start : Option α) :
    fieldFrom read fields name start = some start := by
  rw [fieldFrom, lookup_eq_none_iff_notMem.2 h, Option.elim_none]

namespace Settings

/-- Settings filled in from the fields of a document: each setting that has a field is the reading
of its value, and the others are as in `start`. -/
structure FillFrom (r : SettingReadings ν) (fields : List (String × ν)) (start s : Settings) :
    Prop where
  output : fieldFrom r.text fields "output" start.output = some s.output
  order : fieldFrom r.order fields "order" start.order = some s.order
  catalog : fieldFrom r.text fields "catalog" start.catalog = some s.catalog
  fallback : fieldFrom r.table fields "fallback" start.fallback = some s.fallback
  extensions : fieldFrom r.texts fields "extensions" start.extensions = some s.extensions

/-- The settings that the fields of a document describe. No setting may have two fields. -/
structure Describe (r : SettingReadings ν) (fields : List (String × ν)) (s : Settings) : Prop
    extends FillFrom r fields {} s where
  once : ((fields.map Prod.fst).filter names.contains).Nodup

/-- A field with the name of a setting and a value that is no such setting. -/
inductive Malformed (r : SettingReadings ν) : String → ν → Prop where
  | output {v : ν} (h : r.text v = none) : Malformed r "output" v
  | order {v : ν} (h : r.order v = none) : Malformed r "order" v
  | catalog {v : ν} (h : r.text v = none) : Malformed r "catalog" v
  | fallback {v : ν} (h : r.table v = none) : Malformed r "fallback" v
  | extensions {v : ν} (h : r.texts v = none) : Malformed r "extensions" v

variable {r : SettingReadings ν} {fields : List (String × ν)} {s start : Settings} {name : String}
  {v : ν}

/-- Settings are filled from fields, each from the field under its name. -/
theorem fillFrom_iff : FillFrom r fields start s ↔
    fieldFrom r.text fields "output" start.output = some s.output ∧
    fieldFrom r.order fields "order" start.order = some s.order ∧
    fieldFrom r.text fields "catalog" start.catalog = some s.catalog ∧
    fieldFrom r.table fields "fallback" start.fallback = some s.fallback ∧
    fieldFrom r.texts fields "extensions" start.extensions = some s.extensions :=
  ⟨fun ⟨h₁, h₂, h₃, h₄, h₅⟩ => ⟨h₁, h₂, h₃, h₄, h₅⟩, fun ⟨h₁, h₂, h₃, h₄, h₅⟩ => ⟨h₁, h₂, h₃, h₄, h₅⟩⟩

theorem fillFrom_nil_iff : FillFrom r [] start s ↔ start = s := by
  rw [fillFrom_iff]
  constructor
  · rintro ⟨houtput, horder, hcatalog, hfallback, hextensions⟩
    cases start
    cases s
    simp_all [fieldFrom]
  · rintro rfl
    simp [fieldFrom]

theorem readField_of_notMem (h : name ∉ names) : start.readField r name v = some start := by
  unfold readField
  split <;> simp_all [names]

/-- A field under an unknown name does not matter. -/
theorem fillFrom_cons_of_notMem (h : name ∉ names) :
    FillFrom r ((name, v) :: fields) start s ↔ FillFrom r fields start s := by
  have hne : ∀ other ∈ names, other ≠ name := fun other hother heq => h (heq ▸ hother)
  simp only [names, List.forall_mem_cons] at hne
  obtain ⟨houtput, horder, hcatalog, hfallback, hextensions, -⟩ := hne
  rw [fillFrom_iff, fillFrom_iff, fieldFrom_cons_ne _ houtput, fieldFrom_cons_ne _ horder,
    fieldFrom_cons_ne _ hcatalog, fieldFrom_cons_ne _ hfallback, fieldFrom_cons_ne _ hextensions]

/-- The first field is filled in first, provided that no later field has its name. -/
theorem fillFrom_cons_iff (h : name ∈ names → name ∉ fields.map Prod.fst) :
    FillFrom r ((name, v) :: fields) start s ↔
      ∃ next, start.readField r name v = some next ∧ FillFrom r fields next s := by
  by_cases hname : name ∈ names
  · have hlater := h hname
    simp only [names, List.mem_cons, List.not_mem_nil, or_false] at hname
    -- One case a setting: its own field is read here, those of the others further on.
    rcases hname with rfl | rfl | rfl | rfl | rfl
    all_goals
      simp only [readField, fillFrom_iff, fieldFrom_cons_self, fieldFrom_of_notMem _ hlater, ne_eq,
        String.reduceEq, not_false_eq_true, fieldFrom_cons_ne]
    · cases r.text v <;> simp
    · cases r.order v <;> simp
    · cases r.text v <;> simp
    · cases r.table v <;> simp
    · cases r.texts v <;> simp
  · simp [readField_of_notMem hname, fillFrom_cons_of_notMem hname]

/-- Reading fields one after another fills the settings from them, if no setting is named twice. -/
theorem foldlM_readField_iff (honce : ((fields.map Prod.fst).filter names.contains).Nodup) :
    fields.foldlM (fun s field => s.readField r field.1 field.2) start = some s ↔
      FillFrom r fields start s := by
  induction fields generalizing start with
  | nil => simp [fillFrom_nil_iff]
  | cons field rest ih =>
    obtain ⟨name, v⟩ := field
    have hlater : name ∈ names → name ∉ rest.map Prod.fst := by
      intro hname hrest
      rw [List.map_cons, List.filter_cons_of_pos (by simpa using hname)] at honce
      refine (List.nodup_cons.1 honce).1 (List.mem_filter.2 ⟨hrest, ?_⟩)
      simpa using hname
    have hothers : ((rest.map Prod.fst).filter names.contains).Nodup :=
      honce.sublist ((List.sublist_cons_self _ _).filter _)
    rw [List.foldlM_cons, Option.bind_eq_bind, Option.bind_eq_some_iff, fillFrom_cons_iff hlater]
    exact exists_congr fun next => and_congr_right fun _ => ih hothers

/-- A reading succeeds with the settings that the fields describe, and fails if they describe
none. -/
theorem read?_eq_some_iff : read? r fields = some s ↔ Describe r fields s := by
  unfold read?
  split
  · next honce =>
    rw [foldlM_readField_iff honce]
    exact ⟨fun h => ⟨h, honce⟩, fun h => h.toFillFrom⟩
  · next hrepeated =>
    constructor
    · nofun
    · intro h
      exact absurd h.once hrepeated

/-- A malformed field is refused, whatever stands before it. -/
theorem readField_of_malformed (h : Malformed r name v) (start : Settings) :
    start.readField r name v = none := by
  cases h with
  | output h => simp [readField, h]
  | order h => simp [readField, h]
  | catalog h => simp [readField, h]
  | fallback h => simp [readField, h]
  | extensions h => simp [readField, h]

/-- One malformed field spoils all settings. -/
theorem not_describe_of_malformed (hfield : (name, v) ∈ fields) (h : Malformed r name v) :
    ¬ Describe r fields s := by
  intro hs
  have hread := read?_eq_some_iff.2 hs
  rw [read?, if_pos hs.once] at hread
  obtain ⟨before, after, rfl⟩ := List.append_of_mem hfield
  rw [List.foldlM_append] at hread
  obtain ⟨middle, -, hrest⟩ := Option.bind_eq_some_iff.1 hread
  rw [List.foldlM_cons, readField_of_malformed h] at hrest
  cases hrest

/-! ## The two notations -/

/-- The fields of a YAML mapping whose names are all texts. -/
def NamedEntries (entries : List (Yaml.Node × Yaml.Node)) (fields : List (String × Yaml.Node)) :
    Prop :=
  List.Forall₂ (fun entry field => entry.1.text? = some field.1 ∧ entry.2 = field.2) entries fields

/-- A text in TOML gives the settings that its table describes. -/
theorem ofToml?_eq_some_iff {text : String} :
    ofToml? text = some s ↔
      ∃ entries, Toml.read? text = some (.table entries) ∧
        Describe Toml.Value.readings entries s := by
  unfold ofToml?
  split
  · next entries htext => simp [htext, read?_eq_some_iff]
  · next hother =>
    constructor
    · nofun
    · rintro ⟨entries, htext, -⟩
      exact absurd htext (hother entries)

/-- Names are read off the keys, one by one. -/
theorem mapM_named_eq_some_iff {entries : List (Yaml.Node × Yaml.Node)}
    {fields : List (String × Yaml.Node)} :
    (entries.mapM fun (k, v) => k.text?.map (·, v)) = some fields ↔
      NamedEntries entries fields := by
  unfold NamedEntries
  induction entries generalizing fields with
  | nil => cases fields <;> simp
  | cons entry rest ih =>
    obtain ⟨k, v⟩ := entry
    simp only [List.mapM_cons, Option.bind_eq_bind, Option.bind_eq_some_iff, Option.map_eq_some_iff,
      List.forall₂_cons_left_iff]
    constructor
    · rintro ⟨field, ⟨name, hname, rfl⟩, others, hothers, hfields⟩
      cases hfields
      exact ⟨(name, v), others, ⟨hname, rfl⟩, ih.1 hothers, rfl⟩
    · rintro ⟨⟨name, w⟩, others, ⟨hname, rfl⟩, hothers, rfl⟩
      exact ⟨(name, v), ⟨name, hname, rfl⟩, others, ih.2 hothers, rfl⟩

/-- A text in YAML gives the settings that its mapping describes, and leaves all of them open if it
is blank. -/
theorem ofYaml?_eq_some_iff {text : String} :
    ofYaml? text = some s ↔
      (Yaml.read? text = some none ∧ s = {}) ∨
      ∃ node entries fields, Yaml.read? text = some (some node) ∧ node.entries? = some entries ∧
        NamedEntries entries fields ∧ Describe Yaml.Node.readings fields s := by
  unfold ofYaml?
  cases Yaml.read? text with
  | none => simp
  | some document =>
    cases document with
    | none => simp [eq_comm]
    | some node =>
      simp only [Option.bind_eq_bind, Option.bind_some, Option.bind_eq_some_iff,
        mapM_named_eq_some_iff, read?_eq_some_iff]
      simp

end Settings

end Concord
