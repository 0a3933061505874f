import Concord.Proofs.Lint.Document

/-!
# Canonical documents

A document is canonical if every severity and every access is written as its word, names stand in
their order, and nothing is written that goes without saying. Exactly the canonical documents are
written for configurations (`LintConfig.canonical_iff`), so each document that is read has one
canonical form.
-/

namespace Concord

/-! ## Objects and lists -/

namespace Json

/-- An object with values of one kind in the increasing order of their names. -/
inductive SortedObject (value : Json → Prop) : Json → Prop where
  | mk {fields : List (String × Json)} (sorted : fields.Pairwise fun a b => a.1 < b.1)
      (values : ∀ field ∈ fields, value field.2) : SortedObject value (.object fields)

/-- An object in which no name occurs twice. -/
inductive DistinctObject : Json → Prop where
  | mk {fields : List (String × Json)} (nodup : (fields.map Prod.fst).Nodup) :
      DistinctObject (.object fields)

/-- A list of texts. -/
inductive TextList : Json → Prop where
  | mk (texts : List String) : TextList (strings texts)

/-- Fields whose values are all written forms are the written form of entries. -/
theorem exists_map_eq {α : Type} {value : Json → Prop} {write : α → Json}
    (h : ∀ v, value v → ∃ a, write a = v) {fields : List (String × Json)}
    (hfields : ∀ field ∈ fields, value field.2) :
    ∃ entries : List (String × α),
      entries.map (fun entry => (entry.1, write entry.2)) = fields := by
  induction fields with
  | nil => exact ⟨[], rfl⟩
  | cons field rest ih =>
    obtain ⟨hfirst, hrest⟩ := List.forall_mem_cons.1 hfields
    obtain ⟨a, ha⟩ := h field.2 hfirst
    obtain ⟨entries, hentries⟩ := ih hrest
    refine ⟨(field.1, a) :: entries, ?_⟩
    rw [List.map_cons, ha, hentries]

/-- If the values are those written for some items, the objects are those written for sorted maps
of the items. -/
theorem sortedObject_iff {α : Type} {value : Json → Prop} {write : α → Json}
    (h : ∀ v, value v ↔ ∃ a, write a = v) (v : Json) :
    SortedObject value v ↔ ∃ m, ofSortedMap write m = v := by
  constructor
  · rintro ⟨hsorted, hvalues⟩
    obtain ⟨entries, rfl⟩ := exists_map_eq (fun v => (h v).1) hvalues
    rw [List.pairwise_map] at hsorted
    exact ⟨⟨entries, hsorted⟩, rfl⟩
  · rintro ⟨m, rfl⟩
    have hsorted := m.sorted
    refine .mk (by rwa [List.pairwise_map]) fun field hfield => ?_
    obtain ⟨entry, -, rfl⟩ := List.mem_map.1 hfield
    exact (h _).2 ⟨entry.2, rfl⟩

/-- Objects without repeated names are what maps with an order are written as. -/
theorem distinctObject_iff (v : Json) : DistinctObject v ↔ ∃ m, ofOrderedMap m = v := by
  constructor
  · rintro ⟨hnodup⟩
    exact ⟨⟨_, hnodup⟩, rfl⟩
  · rintro ⟨m, rfl⟩
    exact .mk m.nodup

/-- Lists of texts are what texts are written as. -/
theorem textList_iff (v : Json) : TextList v ↔ ∃ texts, strings texts = v := by
  constructor
  · rintro ⟨texts⟩
    exact ⟨texts, rfl⟩
  · rintro ⟨texts, rfl⟩
    exact .mk texts

theorem ofOrderedMap_eq_nil_iff {m : OrderedMap Json} :
    ofOrderedMap m = .object [] ↔ m.isEmpty = true := by
  rw [OrderedMap.isEmpty, List.isEmpty_iff, ofOrderedMap, object.injEq]

theorem ofSortedMap_eq_nil_iff {α : Type} {write : α → Json} {m : SortedMap α} :
    ofSortedMap write m = .object [] ↔ m.isEmpty = true := by
  rw [SortedMap.isEmpty, List.isEmpty_iff, ofSortedMap, object.injEq, List.map_eq_nil_iff]

theorem strings_eq_nil_iff {texts : List String} :
    strings texts = .array [] ↔ texts.isEmpty = true := by
  rw [List.isEmpty_iff, strings, array.injEq, List.map_eq_nil_iff]

end Json

/-! ## Rules and globals -/

/-- A rule whose severity is written as a word, in a list only where options follow. -/
inductive RuleEntry.Canonical : Json → Prop where
  | bare (severity : Severity) : Canonical (.string severity.name)
  | valued (severity : Severity) (first : Json) (rest : List Json) :
      Canonical (.array (.string severity.name :: first :: rest))

/-- A canonical rule is the written form of an entry: its severity, with the options behind it. -/
theorem RuleEntry.canonical_iff (v : Json) : Canonical v ↔ ∃ r : RuleEntry, r.toJson = v := by
  constructor
  · rintro (severity | ⟨severity, first, rest⟩)
    · exact ⟨⟨severity, []⟩, rfl⟩
    · exact ⟨⟨severity, first :: rest⟩, rfl⟩
  · rintro ⟨⟨severity, options⟩, rfl⟩
    cases options with
    | nil => exact .bare severity
    | cons first rest => exact .valued severity first rest

/-- A global whose access is written as its word. -/
inductive GlobalAccess.Canonical : Json → Prop where
  | word (access : GlobalAccess) : Canonical (.string access.name)

/-- A canonical access is the written form of one. -/
theorem GlobalAccess.canonical_iff (v : Json) :
    Canonical v ↔ ∃ access : GlobalAccess, access.toJson = v := by
  constructor
  · rintro ⟨access⟩
    exact ⟨access, rfl⟩
  · rintro ⟨access, rfl⟩
    exact .word access

/-- A truth value. -/
inductive Json.Truth : Json → Prop where
  | mk (b : Bool) : Truth (.bool b)

theorem Json.truth_iff (v : Json) : Truth v ↔ ∃ b, Json.bool b = v := by
  constructor
  · rintro ⟨b⟩
    exact ⟨b, rfl⟩
  · rintro ⟨b, rfl⟩
    exact .mk b

/-! ## Spellings -/

/-- The digit for a severity. -/
def Severity.digit : Severity → UInt64
  | .off => 0
  | .warn => 1
  | .error => 2

/-- A severity as configuration may spell it. -/
inductive Severity.Spelling (s : Severity) : Json → Prop where
  | word {text : String} : lowerCase text = s.name → Spelling s (.string text)
  | digit : Spelling s (.number (.natural s.digit))

theorem Severity.ofName?_eq_some_iff {text : String} {s : Severity} :
    ofName? text = some s ↔ text = s.name := by
  constructor
  · intro h
    unfold ofName? at h
    split_ifs at h with hoff hwarn herror <;> cases h <;> assumption
  · rintro rfl
    cases s <;> decide

theorem Severity.ofNumber?_eq_some_iff {n : UInt64} {s : Severity} :
    ofNumber? n = some s ↔ n = s.digit := by
  constructor
  · intro h
    unfold ofNumber? at h
    split_ifs at h with hoff hwarn herror <;> cases h <;> assumption
  · rintro rfl
    cases s <;> decide

/-- A severity is read from its word and from its digit, and from nothing else. -/
theorem Severity.ofJson?_eq_some_iff {v : Json} {s : Severity} :
    ofJson? v = some s ↔ s.Spelling v := by
  constructor
  · intro h
    unfold ofJson? at h
    split at h
    · exact .word (ofName?_eq_some_iff.1 h)
    · rw [ofNumber?_eq_some_iff.1 h]
      exact .digit
    · cases h
  · rintro (hword | _)
    · exact ofName?_eq_some_iff.2 hword
    · exact ofNumber?_eq_some_iff.2 rfl

/-- A rule without options is a severity, or a list of nothing else. -/
theorem RuleEntry.decode_eq_bare_iff {v : Json} {s : Severity} :
    decode v = .ok ⟨s, []⟩ ↔ s.Spelling v ∨ ∃ w, v = .array [w] ∧ s.Spelling w := by
  constructor
  · intro h
    unfold decode at h
    split at h
    · cases h
    · next first options =>
      split at h <;> cases h
      next hfirst => exact .inr ⟨first, rfl, Severity.ofJson?_eq_some_iff.1 hfirst⟩
    · split at h <;> cases h
      next hv => exact .inl (Severity.ofJson?_eq_some_iff.1 hv)
  · rintro (hv | ⟨w, rfl, hw⟩)
    · have hfound := Severity.ofJson?_eq_some_iff.2 hv
      cases hv <;> rw [decode, hfound] <;> simp
    · rw [decode, Severity.ofJson?_eq_some_iff.2 hw]

/-- The words for an access. -/
def GlobalAccess.words : GlobalAccess → List String
  | .readonly => ["readonly", "readable", "false"]
  | .writable => ["writable", "writeable", "true"]
  | .off => ["off"]

/-- An access as configuration may spell it. -/
inductive GlobalAccess.Spelling : GlobalAccess → Json → Prop where
  | word {access : GlobalAccess} {text : String} : text ∈ access.words →
      Spelling access (.string text)
  | granted : Spelling .writable (.bool true)
  | denied : Spelling .readonly (.bool false)

/-- An access is read from any of its words. -/
theorem GlobalAccess.ofName?_eq_some_iff {text : String} {access : GlobalAccess} :
    ofName? text = some access ↔ text ∈ access.words := by
  constructor
  · intro h
    unfold ofName? at h
    split_ifs at h with hwritable hreadonly hoff <;> cases h
    · simpa [words, or_assoc] using hwritable
    · simpa [words, or_assoc] using hreadonly
    · simpa [words] using hoff
  · revert text
    cases access <;> decide

/-- An access is read from its spellings and from nothing else. -/
theorem GlobalAccess.decode_eq_ok_iff {v : Json} {access : GlobalAccess} :
    decode v = .ok access ↔ access.Spelling v := by
  constructor
  · intro h
    unfold decode at h
    split at h
    · cases h
      exact .granted
    · cases h
      exact .denied
    · split at h <;> cases h
      next hword => exact .word (ofName?_eq_some_iff.1 hword)
    · cases h
  · rintro (hword | _ | _)
    · rw [decode, ofName?_eq_some_iff.2 hword]
    · rfl
    · rfl

/-! ## Fields in the order of their names -/

/-- The fields that are written are those with a value, in the order of the names. -/
theorem map_fst_fieldsOf (value? : String → Option Json) (names : List String) :
    (fieldsOf value? names).map Prod.fst = names.filter fun name => (value? name).isSome := by
  induction names with
  | nil => rfl
  | cons name rest ih =>
    rw [fieldsOf_cons, List.map_append, ih, List.filter_cons]
    cases value? name <;> rfl

/-- Fields in the order of the names are recovered by looking the names up. -/
theorem fieldsOf_lookup {names : List String} (hnodup : names.Nodup)
    {fields : List (String × Json)} (h : (fields.map Prod.fst).Sublist names) :
    fieldsOf (fields.lookup ·) names = fields := by
  induction names generalizing fields with
  | nil =>
    have hnil : fields = [] := List.map_eq_nil_iff.1 (List.sublist_nil.1 h)
    rw [hnil]
    rfl
  | cons name rest ih =>
    obtain ⟨hname, hrest⟩ := List.nodup_cons.1 hnodup
    rw [fieldsOf_cons]
    rcases List.sublist_cons_iff.1 h with hskip | ⟨others, hfields, hothers⟩
    · have hmissing : fields.lookup name = none :=
        lookup_eq_none_iff_notMem.2 fun hmem => hname (hskip.subset hmem)
      rw [hmissing, ih hrest hskip]
      rfl
    · obtain ⟨⟨key, v⟩, tail, rfl, rfl, rfl⟩ := List.map_eq_cons_iff.1 hfields
      have htail : fieldsOf (((key, v) :: tail).lookup ·) rest = fieldsOf (tail.lookup ·) rest := by
        refine List.filterMap_congr fun other hother => ?_
        have hne : other ≠ key := fun e => hname (e ▸ hother)
        have hlookup : ((key, v) :: tail).lookup other = tail.lookup other := by
          rw [lookup_cons_eq, if_neg hne]
        exact congrArg (Option.map _) hlookup
      rw [lookup_cons_eq, if_pos rfl, htail, ih hrest hothers]
      rfl

/-! ## Settings -/

namespace LintSettings

/-- A canonical value for the setting with a name. -/
inductive CanonicalField : String → Json → Prop where
  | root : CanonicalField "root" (.bool true)
  | rules {v : Json} : v.SortedObject RuleEntry.Canonical → CanonicalField "rules" v
  | settings {v : Json} : v.DistinctObject → v ≠ .object [] → CanonicalField "settings" v
  | globals {v : Json} : v.SortedObject GlobalAccess.Canonical → v ≠ .object [] →
      CanonicalField "globals" v
  | env {v : Json} : v.SortedObject Json.Truth → v ≠ .object [] → CanonicalField "env" v
  | plugins {v : Json} : v.TextList → v ≠ .array [] → CanonicalField "plugins" v
  | parser (name : String) : CanonicalField "parser" (.string name)
  | parserOptions {v : Json} : v.DistinctObject → v ≠ .object [] →
      CanonicalField "parserOptions" v
  | extensions {v : Json} : v.TextList → CanonicalField "extensions" v

/-- Canonical fields in the order of the settings, the rules among them. -/
structure CanonicalFields (fields : List (String × Json)) : Prop where
  ordered : (fields.map Prod.fst).Sublist names
  rules : "rules" ∈ fields.map Prod.fst
  values : ∀ field ∈ fields, CanonicalField field.1 field.2

/-- A value that is not the blank one is written. -/
theorem unless_eq_some {empty : Bool} {v blank : Json} (hblank : v = blank ↔ empty = true)
    (hne : v ≠ blank) : (if empty then none else some v) = some v :=
  if_neg fun h => hne (hblank.2 h)

/-- What is written is not the blank value. -/
theorem ne_of_unless_eq_some {empty : Bool} {v w blank : Json} (hblank : v = blank ↔ empty = true)
    (h : (if empty then none else some v) = some w) : w ≠ blank := by
  rintro rfl
  have hv := eq_of_unless_eq_some h
  rw [if_pos (hblank.1 hv)] at h
  cases h

/-- The canonical values for a setting are those written for it. -/
theorem canonicalField_iff {name : String} {v : Json} :
    CanonicalField name v ↔ ∃ s : LintSettings, s.written? name = some v := by
  constructor
  · rintro (_ | hrules | ⟨hsettings, hne⟩ | ⟨hglobals, hne⟩ | ⟨henv, hne⟩ | ⟨hplugins, hne⟩ |
      parser | ⟨hoptions, hne⟩ | hextensions)
    · exact ⟨{ root := true }, rfl⟩
    · obtain ⟨rules, rfl⟩ := (Json.sortedObject_iff RuleEntry.canonical_iff v).1 hrules
      exact ⟨{ rules }, rfl⟩
    · obtain ⟨settings, rfl⟩ := (Json.distinctObject_iff v).1 hsettings
      exact ⟨{ settings }, unless_eq_some Json.ofOrderedMap_eq_nil_iff hne⟩
    · obtain ⟨globals, rfl⟩ := (Json.sortedObject_iff GlobalAccess.canonical_iff v).1 hglobals
      exact ⟨{ globals }, unless_eq_some Json.ofSortedMap_eq_nil_iff hne⟩
    · obtain ⟨env, rfl⟩ := (Json.sortedObject_iff Json.truth_iff v).1 henv
      exact ⟨{ env }, unless_eq_some Json.ofSortedMap_eq_nil_iff hne⟩
    · obtain ⟨plugins, rfl⟩ := (Json.textList_iff v).1 hplugins
      exact ⟨{ plugins }, unless_eq_some Json.strings_eq_nil_iff hne⟩
    · exact ⟨{ parser := some parser }, rfl⟩
    · obtain ⟨parserOptions, rfl⟩ := (Json.distinctObject_iff v).1 hoptions
      exact ⟨{ parserOptions }, unless_eq_some Json.ofOrderedMap_eq_nil_iff hne⟩
    · obtain ⟨extensions, rfl⟩ := (Json.textList_iff v).1 hextensions
      exact ⟨{ extensions := some extensions }, rfl⟩
  · rintro ⟨s, h⟩
    unfold written? at h
    split at h
    · split at h <;> cases h
      exact .root
    · cases h
      exact .rules ((Json.sortedObject_iff RuleEntry.canonical_iff _).2 ⟨s.rules, rfl⟩)
    · have hne := ne_of_unless_eq_some Json.ofOrderedMap_eq_nil_iff h
      cases eq_of_unless_eq_some h
      exact .settings ((Json.distinctObject_iff _).2 ⟨s.settings, rfl⟩) hne
    · have hne := ne_of_unless_eq_some Json.ofSortedMap_eq_nil_iff h
      cases eq_of_unless_eq_some h
      exact .globals ((Json.sortedObject_iff GlobalAccess.canonical_iff _).2 ⟨s.globals, rfl⟩) hne
    · have hne := ne_of_unless_eq_some Json.ofSortedMap_eq_nil_iff h
      cases eq_of_unless_eq_some h
      exact .env ((Json.sortedObject_iff Json.truth_iff _).2 ⟨s.env, rfl⟩) hne
    · have hne := ne_of_unless_eq_some Json.strings_eq_nil_iff h
      cases eq_of_unless_eq_some h
      exact .plugins ((Json.textList_iff _).2 ⟨s.plugins, rfl⟩) hne
    · obtain ⟨parser, -, rfl⟩ := Option.map_eq_some_iff.1 h
      exact .parser parser
    · have hne := ne_of_unless_eq_some Json.ofOrderedMap_eq_nil_iff h
      cases eq_of_unless_eq_some h
      exact .parserOptions ((Json.distinctObject_iff _).2 ⟨s.parserOptions, rfl⟩) hne
    · obtain ⟨extensions, -, rfl⟩ := Option.map_eq_some_iff.1 h
      exact .extensions ((Json.textList_iff _).2 ⟨extensions, rfl⟩)
    · cases h

/-- Each setting taken from settings of its own. -/
def gather (pick : String → LintSettings) : LintSettings where
  root := (pick "root").root
  rules := (pick "rules").rules
  settings := (pick "settings").settings
  globals := (pick "globals").globals
  env := (pick "env").env
  plugins := (pick "plugins").plugins
  parser := (pick "parser").parser
  parserOptions := (pick "parserOptions").parserOptions
  extensions := (pick "extensions").extensions

/-- Settings that are gathered field by field write each field as the settings that it is taken from
do. -/
theorem written?_gather (pick : String → LintSettings) (name : String) :
    (gather pick).written? name = (pick name).written? name := by
  unfold written?
  split <;> rfl

/-- Settings without anything in them write nothing but their rules. -/
theorem written?_default {name : String} (h : name ≠ "rules") :
    ({} : LintSettings).written? name = none := by
  unfold written?
  split
  case h_2 => exact absurd rfl h
  all_goals rfl

/-- Canonical fields are written for some settings: since each value determines its own setting
only, the settings can be found one name at a time. -/
theorem canonicalFields_iff {fields : List (String × Json)} :
    CanonicalFields fields ↔ ∃ s : LintSettings, s.toFields = fields := by
  constructor
  · rintro ⟨hordered, hrules, hvalues⟩
    have hfound : ∀ name, ∃ s : LintSettings, s.written? name = fields.lookup name := by
      intro name
      cases h : fields.lookup name with
      | none =>
        refine ⟨{}, written?_default ?_⟩
        rintro rfl
        exact lookup_eq_none_iff_notMem.1 h hrules
      | some v => exact canonicalField_iff.1 (hvalues _ (mem_of_lookup h))
    choose pick hpick using hfound
    refine ⟨gather pick, ?_⟩
    have hwritten : (gather pick).written? = (fields.lookup ·) := by
      funext name
      rw [written?_gather, hpick]
    rw [toFields_eq, hwritten]
    exact fieldsOf_lookup (by decide) hordered
  · rintro ⟨s, rfl⟩
    rw [toFields_eq]
    refine ⟨?_, ?_, ?_⟩
    · rw [map_fst_fieldsOf]
      exact List.filter_sublist
    · rw [map_fst_fieldsOf]
      exact List.mem_filter.2 ⟨by decide, rfl⟩
    · rintro ⟨name, v⟩ hfield
      exact canonicalField_iff.2 ⟨s, (mem_fieldsOf.1 hfield).2⟩

end LintSettings

/-! ## Blocks -/

/-- The fields of a scope: its files and, if there are any, the excluded ones. -/
inductive Scope.CanonicalFields : List (String × Json) → Prop where
  | plain {files : Json} : files.TextList → CanonicalFields [("files", files)]
  | excluding {files excluded : Json} : files.TextList → excluded.TextList →
      excluded ≠ .array [] → CanonicalFields [("files", files), ("excludedFiles", excluded)]

/-- Canonical fields of a scope are what scopes are written as. -/
theorem Scope.canonicalFields_iff {fields : List (String × Json)} :
    CanonicalFields fields ↔ ∃ s : Scope, s.toFields = fields := by
  constructor
  · rintro (⟨⟨files⟩⟩ | ⟨⟨files⟩, ⟨excluded⟩, hne⟩)
    · exact ⟨⟨files, []⟩, rfl⟩
    · have hsome : ¬ excluded.isEmpty = true := fun h => hne (Json.strings_eq_nil_iff.2 h)
      refine ⟨⟨files, excluded⟩, ?_⟩
      rw [toFields, if_neg hsome]
  · rintro ⟨⟨files, excluded⟩, rfl⟩
    cases excluded with
    | nil => exact .plain (.mk files)
    | cons first rest => exact .excluding (.mk files) (.mk (first :: rest)) (by simp [Json.strings])

/-- The field of written blocks, if there are any. -/
def blocksField : List Json → List (String × Json)
  | [] => []
  | first :: rest => [("overrides", .array (first :: rest))]

/-- Blocks are written under one name, and not at all if there are none. -/
theorem overrideFields_eq (blocks : List OverrideBlock) :
    overrideFields blocks = blocksField (blocksToJson blocks) := by
  cases blocks with
  | nil => rfl
  | cons block rest => rw [overrideFields, blocksToJson, blocksField]

/-- A block with canonical fields, in which the blocks within are canonical. -/
inductive OverrideBlock.Canonical : Json → Prop where
  | mk {scope settings : List (String × Json)} {blocks : List Json}
      (hscope : Scope.CanonicalFields scope) (hsettings : LintSettings.CanonicalFields settings)
      (hblocks : ∀ block ∈ blocks, Canonical block) :
      Canonical (.object (scope ++ settings ++ blocksField blocks))

mutual

/-- A block is written in the canonical form, together with the blocks inside it. -/
theorem OverrideBlock.canonical_toJson : ∀ block : OverrideBlock, Canonical block.toJson
  | .mk scope settings blocks => by
    rw [toJson, overrideFields_eq]
    exact .mk (Scope.canonicalFields_iff.2 ⟨scope, rfl⟩)
      (LintSettings.canonicalFields_iff.2 ⟨settings, rfl⟩) (canonical_blocksToJson blocks)

theorem OverrideBlock.canonical_blocksToJson :
    ∀ blocks : List OverrideBlock, ∀ v ∈ blocksToJson blocks, Canonical v
  | [] => by
    intro v hv
    rw [blocksToJson] at hv
    cases hv
  | block :: rest => by
    rw [blocksToJson]
    exact List.forall_mem_cons.2 ⟨canonical_toJson block, canonical_blocksToJson rest⟩

end

/-- A list of written blocks is the written form of a list of blocks. -/
theorem exists_blocksToJson_eq {written : List Json}
    (h : ∀ v ∈ written, ∃ block : OverrideBlock, block.toJson = v) :
    ∃ blocks, blocksToJson blocks = written := by
  induction written with
  | nil => exact ⟨[], by rw [blocksToJson]⟩
  | cons v rest ih =>
    obtain ⟨hfirst, hrest⟩ := List.forall_mem_cons.1 h
    obtain ⟨block, rfl⟩ := hfirst
    obtain ⟨blocks, rfl⟩ := ih hrest
    exact ⟨block :: blocks, by rw [blocksToJson]⟩

/-- Canonical blocks are what blocks are written as. -/
theorem OverrideBlock.canonical_iff {v : Json} :
    Canonical v ↔ ∃ block : OverrideBlock, block.toJson = v := by
  constructor
  · intro h
    induction h with
    | mk hscope hsettings _ ih =>
      obtain ⟨scope, rfl⟩ := Scope.canonicalFields_iff.1 hscope
      obtain ⟨settings, rfl⟩ := LintSettings.canonicalFields_iff.1 hsettings
      obtain ⟨blocks, rfl⟩ := exists_blocksToJson_eq ih
      exact ⟨.mk scope settings blocks, by rw [toJson, overrideFields_eq]⟩
  · rintro ⟨block, rfl⟩
    exact canonical_toJson block

/-! ## Configurations -/

namespace LintConfig

/-- A document with canonical settings and canonical blocks. -/
inductive Canonical : Json → Prop where
  | mk {settings : List (String × Json)} {blocks : List Json}
      (hsettings : LintSettings.CanonicalFields settings)
      (hblocks : ∀ block ∈ blocks, OverrideBlock.Canonical block) :
      Canonical (.object (settings ++ blocksField blocks))

/-- Canonical documents are what configurations are written as. -/
theorem canonical_iff {v : Json} : Canonical v ↔ ∃ c : LintConfig, c.toJson = v := by
  constructor
  · rintro ⟨hsettings, hblocks⟩
    obtain ⟨settings, rfl⟩ := LintSettings.canonicalFields_iff.1 hsettings
    obtain ⟨blocks, rfl⟩ := exists_blocksToJson_eq fun v hv =>
      OverrideBlock.canonical_iff.1 (hblocks v hv)
    refine ⟨⟨settings, blocks⟩, ?_⟩
    rw [toJson, toFields, overrideFields_eq]
  · rintro ⟨⟨settings, blocks⟩, rfl⟩
    rw [toJson, toFields, overrideFields_eq]
    exact .mk (LintSettings.canonicalFields_iff.2 ⟨settings, rfl⟩)
      (OverrideBlock.canonical_blocksToJson blocks)

/-- Every configuration is read back from its written form. The canonical documents are those that
reading and writing leave as they are, and a document that is read has exactly one of them with its
meaning, which is what is written for it. Severities may be spelled as words in any case, as digits
or as lists of one item, and accesses as any of their words or as truth values. -/
theorem decode_toJson_and_canonical :
    (∀ c : LintConfig, decode c.toJson = .ok c) ∧
    (∀ v, Canonical v ↔ (decode v).map toJson = .ok v) ∧
    (∀ v c, decode v = .ok c →
      Canonical c.toJson ∧ (decode c.toJson).map toJson = .ok c.toJson ∧
        ∀ w, Canonical w → decode w = .ok c → w = c.toJson) ∧
    (∀ v s, RuleEntry.decode v = .ok ⟨s, []⟩ ↔
      s.Spelling v ∨ ∃ w, v = .array [w] ∧ s.Spelling w) ∧
    ∀ v access, GlobalAccess.decode v = .ok access ↔ access.Spelling v := by
  have hrewritten : ∀ c : LintConfig, (decode c.toJson).map toJson = .ok c.toJson := by
    intro c
    rw [decode_toJson]
    rfl
  refine ⟨decode_toJson, fun v => ?_, fun v c _ => ?_, fun _ _ => RuleEntry.decode_eq_bare_iff,
    fun _ _ => GlobalAccess.decode_eq_ok_iff⟩
  · rw [canonical_iff]
    constructor
    · rintro ⟨c, rfl⟩
      exact hrewritten c
    · intro h
      cases hread : decode v with
      | error failure => rw [hread] at h; cases h
      | ok c =>
        rw [hread] at h
        exact ⟨c, Except.ok.inj h⟩
  · refine ⟨canonical_iff.2 ⟨c, rfl⟩, hrewritten c, fun w hw hread => ?_⟩
    obtain ⟨d, rfl⟩ := canonical_iff.1 hw
    rw [decode_toJson] at hread
    cases hread
    rfl

/-- A document with a word in capitals, digits, a list of one item and a block within a block. -/
def spelledDocument : Json :=
  .object
    [("rules", .object [("semi", .string "ERROR"), ("quotes", .array [.number (.natural 1)])]),
      ("root", .bool true),
      ("globals", .object [("window", .bool true)]),
      ("overrides", .array [.object [
        ("rules", .object [("semi", .number (.natural 0))]), ("files", .strings ["*.ts"]),
        ("overrides", .array [.object [("files", .strings ["a.ts"])]])]])]

theorem canonical_of_spelledDocument :
    ∃ c, decode spelledDocument = .ok c ∧ Canonical c.toJson ∧ c.toJson = .object
      [("root", .bool true),
        ("rules", .object [("quotes", .string "warn"), ("semi", .string "error")]),
        ("globals", .object [("window", .string "writable")]),
        ("overrides", .array [.object [
          ("files", .strings ["*.ts"]), ("rules", .object [("semi", .string "off")]),
          ("overrides", .array [.object [
            ("files", .strings ["a.ts"]), ("rules", .object [])]])]])] :=
  ⟨_, rfl, (decode_toJson_and_canonical.2.2.1 spelledDocument _ rfl).1, rfl⟩

end LintConfig
end Concord
