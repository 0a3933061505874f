import Concord.Proofs.Format.Options

/-!
# Well-formed formatter options

Options are well formed if no name of the nine is among those that pass through and every typed
value is one that its option reads back from JSON. Which values these are depends on the kind of the
option alone (`FormatOption.takes_iff`). Everything that changes options keeps them well formed
(`FormatOptions.WellFormed.apply`). Written out as a map, well-formed options are read back as they
were (`FormatOptions.ofMap_toMap`), since no name is written twice.
-/

namespace Concord

/-! ## Kinds of values -/

/-- The kinds of formatter values. -/
inductive FormatKind where
  /-- A choice of yes or no. -/
  | flag
  /-- A number of columns. -/
  | width
  /-- A choice of trailing commas. -/
  | trailingComma
  /-- A choice of arrow parentheses. -/
  | arrowParens

/-- The kind of a value. -/
def FormatValue.kind : FormatValue → FormatKind
  | .flag _ => .flag
  | .width _ => .width
  | .trailingComma _ => .trailingComma
  | .arrowParens _ => .arrowParens

/-- The kind of the values of an option. -/
def FormatOption.kind : FormatOption → FormatKind
  | .printWidth | .tabWidth => .width
  | .singleQuote | .bracketSpacing | .semi | .useTabs | .jsxBracketSameLine => .flag
  | .trailingComma => .trailingComma
  | .arrowParens => .arrowParens

/-- The value of a kind that a JSON value gives. -/
def FormatKind.read? : FormatKind → Json → Option FormatValue
  | .flag, v => v.bool?.map .flag
  | .width, v => v.natural32?.map .width
  | .trailingComma, v => (v.string?.bind TrailingComma.ofName?).map .trailingComma
  | .arrowParens, v => (v.string?.bind ArrowParens.ofName?).map .arrowParens

namespace Json

theorem bool?_eq_some_iff {v : Json} {b : Bool} : v.bool? = some b ↔ v = .bool b := by
  cases v <;> simp [bool?]

theorem string?_eq_some_iff {v : Json} {s : String} : v.string? = some s ↔ v = .string s := by
  cases v <;> simp [string?]

theorem natural?_eq_some_iff {v : Json} {n : UInt64} :
    v.natural? = some n ↔ v = .number (.natural n) := by
  unfold natural?
  split
  · simp
  · next hother => simpa using hother n

/-- An integer below two to the power of 32 is the same number in 64 bits. -/
theorem natural32?_eq_some_iff {v : Json} {n : UInt32} :
    v.natural32? = some n ↔ v = .number (.natural n.toUInt64) := by
  rw [← natural?_eq_some_iff, natural32?, Option.bind_eq_some_iff]
  constructor
  · rintro ⟨m, hm, hsmall⟩
    split at hsmall
    · next hlt =>
      obtain rfl : m.toUInt32 = n := Option.some.inj hsmall
      -- A small integer survives the way to 32 bits and back.
      have hback : m.toUInt32.toUInt64 = m := by
        apply UInt64.toNat.inj
        rw [UInt32.toNat_toUInt64, UInt64.toNat_toUInt32]
        exact Nat.mod_eq_of_lt hlt
      rw [hm, hback]
    · cases hsmall
  · intro hn
    have hlt : n.toUInt64.toNat < UInt32.size := by
      rw [UInt32.toNat_toUInt64]
      exact n.toNat_lt_size
    exact ⟨n.toUInt64, hn, by rw [if_pos hlt, UInt32.toUInt32_toUInt64]⟩

end Json

theorem TrailingComma.eq_name_of_ofName? {name : String} {t : TrailingComma}
    (h : ofName? name = some t) : t.name = name := by
  unfold ofName? at h
  split at h
  · next hname => cases h; exact hname.symm
  · split at h
    · next hname => cases h; exact hname.symm
    · split at h
      · next hname => cases h; exact hname.symm
      · cases h

theorem ArrowParens.eq_name_of_ofName? {name : String} {a : ArrowParens}
    (h : ofName? name = some a) : a.name = name := by
  unfold ofName? at h
  split at h
  · next hname => cases h; exact hname.symm
  · split at h
    · next hname => cases h; exact hname.symm
    · cases h

/-- A JSON value gives a value of a kind exactly if it is the written form of one. -/
theorem FormatKind.read?_eq_some_iff {kind : FormatKind} {v : Json} {value : FormatValue} :
    kind.read? v = some value ↔ value.kind = kind ∧ v = value.toJson := by
  constructor
  · intro h
    cases kind with
    | flag =>
      obtain ⟨b, hb, rfl⟩ := Option.map_eq_some_iff.1 h
      exact ⟨rfl, Json.bool?_eq_some_iff.1 hb⟩
    | width =>
      obtain ⟨n, hn, rfl⟩ := Option.map_eq_some_iff.1 h
      exact ⟨rfl, Json.natural32?_eq_some_iff.1 hn⟩
    | trailingComma =>
      obtain ⟨t, ht, rfl⟩ := Option.map_eq_some_iff.1 h
      obtain ⟨name, hv, hname⟩ := Option.bind_eq_some_iff.1 ht
      refine ⟨rfl, ?_⟩
      rw [Json.string?_eq_some_iff.1 hv, ← TrailingComma.eq_name_of_ofName? hname]
      rfl
    | arrowParens =>
      obtain ⟨a, ha, rfl⟩ := Option.map_eq_some_iff.1 h
      obtain ⟨name, hv, hname⟩ := Option.bind_eq_some_iff.1 ha
      refine ⟨rfl, ?_⟩
      rw [Json.string?_eq_some_iff.1 hv, ← ArrowParens.eq_name_of_ofName? hname]
      rfl
  · rintro ⟨rfl, rfl⟩
    cases value with
    | flag b => rfl
    | width n => exact congrArg (Option.map _) (Json.natural32?_eq_some_iff.2 rfl)
    | trailingComma t => cases t <;> rfl
    | arrowParens a => cases a <;> rfl

namespace FormatOption

variable {key : FormatOption} {v : Json} {value : FormatValue}

/-- How an option reads values depends on its kind alone. -/
theorem read?_eq (key : FormatOption) (v : Json) : key.read? v = key.kind.read? v := by
  cases key <;> rfl

/-- Whether an option reads a value back from the JSON that the formatter is handed for it. -/
def Takes (key : FormatOption) (value : FormatValue) : Prop :=
  key.read? value.toJson = some value

/-- An option takes the values of its kind and no others. -/
theorem takes_iff : key.Takes value ↔ value.kind = key.kind := by
  rw [Takes, read?_eq, FormatKind.read?_eq_some_iff]
  exact and_iff_left rfl

/-- A value that is read is one that the option takes, and it is written as it was read. -/
theorem read?_eq_some_iff : key.read? v = some value ↔ key.Takes value ∧ v = value.toJson := by
  rw [takes_iff, read?_eq, FormatKind.read?_eq_some_iff]

end FormatOption

namespace FormatOptions

/-- No option that rules can drive is among those that pass through, and every typed value is one
that its option takes. -/
structure WellFormed (o : FormatOptions) : Prop where
  /-- What passes through has none of the nine names. -/
  extra : ∀ key : FormatOption, key.name ∉ o.extra.keys
  /-- Every typed value is read back from what is written for it. -/
  typed : ∀ key value, o.get? key = some value → key.Takes value

end FormatOptions

/-! ## Changing options -/

/-- A change of formatter options. -/
inductive FormatEdit where
  /-- A named JSON value is set. -/
  | set (name : String) (value : Json)
  /-- An option gets a value. -/
  | insert (key : FormatOption) (value : FormatValue)
  /-- Other options are laid over. -/
  | overlay (upper : FormatOptions)
  /-- The options are replaced by those that a map describes. -/
  | replace (m : OrderedMap Json)

namespace FormatEdit

/-- What a change asks of whoever makes it: a value that is inserted must be one that the option
reads from some JSON value, and options laid over must be well formed. -/
def Allowed : FormatEdit → Prop
  | .set _ _ => True
  | .insert key value => ∃ v, key.read? v = some value
  | .overlay upper => upper.WellFormed
  | .replace _ => True

/-- The options after a change. -/
def apply (o : FormatOptions) : FormatEdit → FormatOptions
  | .set name value => o.set name value
  | .insert key value => o.insert key value
  | .overlay upper => o.overlay upper
  | .replace m => .ofMap m

end FormatEdit

namespace FormatOptions

namespace WellFormed

theorem empty : FormatOptions.empty.WellFormed where
  extra _ h := by cases h
  typed _ _ h := by cases h

variable {o : FormatOptions}

/-- Setting a named value keeps options well-formed, whether the value is of use or not. -/
theorem set (h : o.WellFormed) (name : String) (value : Json) : (o.set name value).WellFormed where
  extra key := by
    rw [extra_set]
    split
    · next hpasses =>
      rw [OrderedMap.keys_insert, mem_collect, List.mem_singleton, not_or]
      refine ⟨h.extra key, ?_⟩
      rintro rfl
      rw [passes, FormatOption.ofName?_eq_some_iff.2 rfl] at hpasses
      cases hpasses
    · exact h.extra key
  typed key v hv := by
    rw [get?_set] at hv
    split at hv
    · rcases Option.or_eq_some_iff.1 hv with hread | ⟨-, hold⟩
      · exact (FormatOption.read?_eq_some_iff.1 hread).1
      · exact h.typed key v hold
    · exact h.typed key v hv

theorem insert (h : o.WellFormed) {key : FormatOption} {value : FormatValue}
    (hvalue : key.Takes value) : (o.insert key value).WellFormed where
  extra := h.extra
  typed k v hv := by
    rw [get?_insert] at hv
    split at hv
    · next hk =>
      obtain rfl : value = v := Option.some.inj hv
      exact hk ▸ hvalue
    · exact h.typed k v hv

theorem overlay (h : o.WellFormed) {upper : FormatOptions} (hupper : upper.WellFormed) :
    (o.overlay upper).WellFormed where
  extra key := by
    have hkeys : (o.overlay upper).extra.keys = collect o.extra.keys upper.extra.keys :=
      OrderedMap.keys_overlay _ _
    rw [hkeys, mem_collect, not_or]
    exact ⟨h.extra key, hupper.extra key⟩
  typed key v hv := by
    rw [get?_overlay] at hv
    rcases Option.or_eq_some_iff.1 hv with hnew | ⟨-, hold⟩
    · exact hupper.typed key v hnew
    · exact h.typed key v hold

theorem ofMap (m : OrderedMap Json) : (FormatOptions.ofMap m).WellFormed where
  extra key h := by
    rw [keys_extra_ofMap, List.mem_filter, passes, FormatOption.ofName?_eq_some_iff.2 rfl] at h
    cases h.2
  typed key v hv := by
    rw [get?_ofMap] at hv
    obtain ⟨raw, -, hread⟩ := Option.bind_eq_some_iff.1 hv
    exact (FormatOption.read?_eq_some_iff.1 hread).1

theorem apply (h : o.WellFormed) {edit : FormatEdit} (hedit : edit.Allowed) :
    (edit.apply o).WellFormed := by
  cases edit with
  | set name value => exact h.set name value
  | insert key value =>
    obtain ⟨v, hread⟩ := hedit
    exact h.insert (FormatOption.read?_eq_some_iff.1 hread).1
  | overlay upper => exact h.overlay hedit
  | replace m => exact ofMap m

/-- No run of allowed edits spoils well-formed options. -/
theorem foldl_apply (h : o.WellFormed) {edits : List FormatEdit}
    (hedits : ∀ edit ∈ edits, edit.Allowed) : (edits.foldl FormatEdit.apply o).WellFormed := by
  induction edits generalizing o with
  | nil => exact h
  | cons edit rest ih =>
    obtain ⟨hedit, hrest⟩ := List.forall_mem_cons.1 hedits
    exact ih (h.apply hedit) hrest

end WellFormed

/-! ## Writing and reading back -/

/-- The named values for the typed options, in the order of the options. -/
def typedFields (o : FormatOptions) : List (String × Json) :=
  FormatOption.all.filterMap fun key => (o.get? key).map fun value => (key.name, value.toJson)

/-- The typed options are written in the order of the nine, each that has a value. -/
theorem map_typedEntries (o : FormatOptions) :
    o.typedEntries.map (fun (key, value) => (key.name, value.toJson)) = o.typedFields := by
  unfold typedEntries typedFields
  rw [List.map_filterMap]
  congr 1
  funext key
  rw [Option.map_map]
  rfl

/-- The written options are those with a value, and have that value. -/
theorem mem_typedFields {o : FormatOptions} {entry : String × Json} :
    entry ∈ o.typedFields ↔
      ∃ key value, o.get? key = some value ∧ entry = (key.name, value.toJson) := by
  rw [typedFields, List.mem_filterMap]
  constructor
  · rintro ⟨key, -, hentry⟩
    obtain ⟨value, hvalue, rfl⟩ := Option.map_eq_some_iff.1 hentry
    exact ⟨key, value, hvalue, rfl⟩
  · rintro ⟨key, value, hvalue, rfl⟩
    exact ⟨key, FormatOption.mem_all key, by rw [hvalue]; rfl⟩

theorem exists_of_mem_typedFields {o : FormatOptions} {name : String}
    (h : name ∈ o.typedFields.map Prod.fst) : ∃ key : FormatOption, name = key.name := by
  obtain ⟨entry, hentry, rfl⟩ := List.mem_map.1 h
  obtain ⟨key, value, -, rfl⟩ := mem_typedFields.1 hentry
  exact ⟨key, rfl⟩

/-- No option is written twice. -/
theorem nodup_typedFields (o : FormatOptions) : (o.typedFields.map Prod.fst).Nodup := by
  have hall : FormatOption.all.Nodup := by decide
  rw [List.nodup_iff_pairwise_ne, List.pairwise_map, typedFields, List.pairwise_filterMap]
  refine hall.imp fun hne a ha b hb hsame => hne ?_
  obtain ⟨_, -, rfl⟩ := Option.map_eq_some_iff.1 ha
  obtain ⟨_, -, rfl⟩ := Option.map_eq_some_iff.1 hb
  exact FormatOption.name_injective hsame

/-- A written option can be looked up under its name. -/
theorem lookup_typedFields (o : FormatOptions) (key : FormatOption) :
    o.typedFields.lookup key.name = (o.get? key).map FormatValue.toJson := by
  cases hvalue : o.get? key with
  | some value =>
    exact lookup_of_mem o.nodup_typedFields (mem_typedFields.2 ⟨key, value, hvalue, rfl⟩)
  | none =>
    refine lookup_eq_none_iff_notMem.2 fun hname => ?_
    obtain ⟨entry, hentry, hsame⟩ := List.mem_map.1 hname
    obtain ⟨other, value, hother, rfl⟩ := mem_typedFields.1 hentry
    obtain rfl : other = key := FormatOption.name_injective hsame
    rw [hvalue] at hother
    cases hother

/-- Well-formed options are written as one entry for each of them. -/
theorem entries_toMap {o : FormatOptions} (h : o.WellFormed) :
    o.toMap.entries = o.typedFields ++ o.extra.entries := by
  have htyped : (OrderedMap.ofList o.typedFields).entries = o.typedFields :=
    OrderedMap.entries_ofList o.nodup_typedFields
  have hnew : ∀ name ∈ o.extra.entries.map Prod.fst,
      name ∉ (OrderedMap.ofList o.typedFields).keys := by
    intro name hname hwritten
    rw [OrderedMap.keys, htyped] at hwritten
    obtain ⟨key, rfl⟩ := exists_of_mem_typedFields hwritten
    exact h.extra key hname
  rw [toMap, map_typedEntries, OrderedMap.overlay, OrderedMap.entries_insertAll o.extra.nodup hnew,
    htyped]

/-- What passes through keeps its place among the others. -/
theorem entries_extra_ofMap (m : OrderedMap Json) :
    (ofMap m).extra.entries = m.entries.filter fun entry => passes entry.1 := by
  have hnodup : ((m.entries.filter fun entry => passes entry.1).map Prod.fst).Nodup := by
    rw [map_fst_filter_passes]
    exact nodup_filter_passes m
  rw [ofMap, extra_foldl_set]
  exact OrderedMap.entries_ofList hnodup

/-- Well-formed options are read back as they were written. -/
theorem ofMap_toMap {o : FormatOptions} (h : o.WellFormed) : ofMap o.toMap = o := by
  have hentries := entries_toMap h
  refine ext_get? (fun key => ?_) (OrderedMap.ext_entries ?_)
  · have hfound : o.toMap.find? key.name = (o.get? key).map FormatValue.toJson := by
      -- Nothing that passes through has the name, so nothing is written over the typed field.
      have hgone : o.extra.entries.lookup key.name = none :=
        lookup_eq_none_iff_notMem.2 (h.extra key)
      rw [OrderedMap.find?, hentries, List.lookup_append, lookup_typedFields, hgone,
        Option.or_none]
    rw [get?_ofMap, hfound]
    cases hvalue : o.get? key with
    | none => rfl
    | some value => exact h.typed key value hvalue
  · -- Of what is written, reading lets through what passed through before and nothing else.
    have htyped : o.typedFields.filter (fun entry => passes entry.1) = [] := by
      refine List.filter_eq_nil_iff.2 fun entry hentry => ?_
      obtain ⟨key, hkey⟩ := exists_of_mem_typedFields (List.mem_map_of_mem hentry)
      rw [passes, FormatOption.ofName?_eq_some_iff.2 hkey]
      exact Bool.false_ne_true
    have hextra : o.extra.entries.filter (fun entry => passes entry.1) = o.extra.entries := by
      refine List.filter_eq_self.2 fun entry hentry => ?_
      cases hname : FormatOption.ofName? entry.1 with
      | none => rw [passes, hname]; rfl
      | some key =>
        have hkey : entry.1 = key.name := FormatOption.ofName?_eq_some_iff.1 hname
        exact absurd (hkey ▸ List.mem_map_of_mem hentry) (h.extra key)
    rw [entries_extra_ofMap, hentries, List.filter_append, htyped, hextra, List.nil_append]

/-- A map that is read and written again: the useful entries of the nine in the order of the
options, and then all others in their own order. -/
theorem entries_toMap_ofMap (m : OrderedMap Json) :
    (ofMap m).toMap.entries =
      (FormatOption.all.filterMap fun key =>
        (m.find? key.name).bind fun v => if (key.read? v).isSome then some (key.name, v) else none)
      ++ m.entries.filter fun entry => (FormatOption.ofName? entry.1).isNone := by
  rw [entries_toMap (.ofMap m), entries_extra_ofMap]
  congr 1
  unfold typedFields
  congr 1
  funext key
  rw [get?_ofMap]
  cases m.find? key.name with
  | none => rfl
  | some v =>
    rw [Option.bind_some, Option.bind_some]
    cases hread : key.read? v with
    | none => rfl
    | some value => rw [(FormatOption.read?_eq_some_iff.1 hread).2]; rfl

end FormatOptions

end Concord
