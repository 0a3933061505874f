import Concord.Proofs.Derivation.Resolution
import Concord.Proofs.Format.WellFormed

/-!
# Derived options are well formed

Values derived from rules do not come from reading JSON, yet they are of the kind of their option
(`FormatOption.takes_of_derive`), so that resolving options keeps them well formed. Together with
what holds of the operations on options, every set of options that is handed to a formatter can be
written out and read back (`FormatOptions.wellFormed_roundTrip`).
-/

namespace Concord

/-! ## Values of the normalizers -/

/-- A choice of quotes is read from a word, or from a truth value. -/
theorem singleQuoteOf_eq (v : Json) :
    singleQuoteOf v =
      (((QuoteStyle.read? v).map fun style => decide (style = .single)).or v.bool?).map .flag := by
  unfold singleQuoteOf
  cases QuoteStyle.read? v <;> rfl

theorem toggleOf_eq (v : Json) :
    toggleOf v =
      (((Toggle.read? v).map fun toggle => decide (toggle = .always)).or v.bool?).map .flag := by
  unfold toggleOf
  cases Toggle.read? v <;> rfl

theorem bracketSameLineOf_eq (v : Json) :
    bracketSameLineOf v =
      (((ClosingBracket.read? v).map fun place => decide (place = .afterProps)).or v.bool?).map
        .flag := by
  unfold bracketSameLineOf
  cases ClosingBracket.read? v <;> rfl

/-- A width is an integer of 32 bits; the word for tabs is none. -/
theorem widthOf_eq (v : Json) : widthOf v = v.natural32?.map .width := by
  unfold widthOf
  cases v with
  | string s =>
    have hnone : ∀ s, (Json.string s).natural32? = none := fun _ => rfl
    by_cases htab : s = "tab" <;> simp [Indentation.read?, htab, hnone]
  | number n => cases h : (Json.number n).natural32? <;> simp [Indentation.read?, h]
  | _ => rfl

/-- What a raw value means for an option is of the option's kind. -/
theorem FormatOption.kind_of_meaning {key : FormatOption} {v : Json} {value : FormatValue}
    (h : key.meaning v = some value) : value.kind = key.kind := by
  cases key with
  | printWidth | tabWidth =>
    obtain ⟨columns, -, rfl⟩ := Option.map_eq_some_iff.1 ((widthOf_eq v).symm.trans h)
    rfl
  | singleQuote =>
    obtain ⟨b, -, rfl⟩ := Option.map_eq_some_iff.1 ((singleQuoteOf_eq v).symm.trans h)
    rfl
  | trailingComma =>
    obtain ⟨choice, -, rfl⟩ := Option.map_eq_some_iff.1 h
    rfl
  | bracketSpacing | semi =>
    obtain ⟨b, -, rfl⟩ := Option.map_eq_some_iff.1 ((toggleOf_eq v).symm.trans h)
    rfl
  | useTabs =>
    rw [meaning, useTabsOf] at h
    split at h
    · cases h; rfl
    · cases h
  | jsxBracketSameLine =>
    obtain ⟨b, -, rfl⟩ := Option.map_eq_some_iff.1 ((bracketSameLineOf_eq v).symm.trans h)
    rfl
  | arrowParens =>
    rw [meaning, arrowParensOf] at h
    split at h <;> cases h <;> rfl

/-- A value that is derived for an option is of the kind that the option takes. -/
theorem FormatOption.takes_of_derive {key : FormatOption} {rules : RuleSet} {value : FormatValue}
    (h : key.derive rules = .concrete value) : key.Takes value := by
  have hvalue := Derived.value?_eq_some_iff.2 h
  rw [derive, normalize, Derived.value?_andThen] at hvalue
  obtain ⟨raw, -, hraw⟩ := Option.bind_eq_some_iff.1 hvalue
  exact takes_iff.2 (kind_of_meaning hraw)

/-! ## Resolved options -/

namespace FormatOptions

/-- Resolving keeps options well-formed, since all that it adds is. -/
theorem WellFormed.resolve {explicit fallback : FormatOptions} (hexplicit : explicit.WellFormed)
    (hfallback : fallback.WellFormed) (rules : RuleSet) :
    (resolve rules explicit fallback).WellFormed where
  extra key := by
    have hkeys := OrderedMap.keys_overlay (FormatOptions.ofMap rules.bundle).extra explicit.extra
    rw [extra_resolve, hkeys, mem_collect, not_or]
    exact ⟨(WellFormed.ofMap rules.bundle).extra key, hexplicit.extra key⟩
  typed key value h := by
    have hembedded : (FormatOptions.ofMap rules.bundle).get? key =
        (rules.bundle.find? key.name).bind key.read? := get?_ofMap _ _
    rw [get?_resolve, ← hembedded] at h
    -- The value is that of one of the four sources.
    simp only [firstPresent_cons, firstPresent_nil, Option.or_none, Option.or_eq_some_iff] at h
    rcases h with h | ⟨-, h | ⟨-, h | ⟨-, h⟩⟩⟩
    · exact hexplicit.typed key value h
    · exact (WellFormed.ofMap rules.bundle).typed key value h
    · exact FormatOption.takes_of_derive (Derived.value?_eq_some_iff.1 h)
    · exact hfallback.typed key value h

/-- Options stay well formed whatever is allowed to happen to them, derived values are of a kind
that their options take, and resolution keeps options well formed. Well-formed options are written
as one entry each, typed ones first, and read back as they were; a map that is read and written
keeps the useful entries of the nine and everything that passes through. -/
theorem wellFormed_roundTrip :
    (∀ edits : List FormatEdit, (∀ edit ∈ edits, edit.Allowed) →
      (edits.foldl FormatEdit.apply empty).WellFormed) ∧
    (∀ (key : FormatOption) (rules : RuleSet) (value : FormatValue),
      key.derive rules = .concrete value → key.read? value.toJson = some value) ∧
    (∀ (rules : RuleSet) (explicit fallback : FormatOptions), explicit.WellFormed →
      fallback.WellFormed → (resolve rules explicit fallback).WellFormed) ∧
    (∀ o : FormatOptions, o.WellFormed →
      o.toMap.entries = (FormatOption.all.filterMap fun key =>
          (o.get? key).map fun value => (key.name, value.toJson)) ++ o.extra.entries ∧
        ofMap o.toMap = o) ∧
    ∀ m : OrderedMap Json, (ofMap m).toMap.entries =
      (FormatOption.all.filterMap fun key =>
        (m.find? key.name).bind fun v => if (key.read? v).isSome then some (key.name, v) else none)
      ++ m.entries.filter fun entry => (FormatOption.ofName? entry.1).isNone :=
  ⟨fun _ hedits => WellFormed.empty.foldl_apply hedits,
    fun _ _ _ hvalue => FormatOption.takes_of_derive hvalue,
    fun rules _ _ hexplicit hfallback => hexplicit.resolve hfallback rules,
    fun _ ho => ⟨entries_toMap ho, ofMap_toMap ho⟩, entries_toMap_ofMap⟩

/-- Four changes: an option that passes through, a useless and a useful value for one of the nine,
and options laid over both. -/
def fourEdits : List FormatEdit :=
  [.set "endOfLine" (.string "lf"), .set "semi" (.string "yes"), .insert .semi (.flag true),
    .overlay (.ofMap (.ofList [("endOfLine", .string "crlf"), ("tabWidth", .number (.natural 4))]))]

/-- A rule set that wants no semicolons. -/
def neverSemi : RuleSet := SortedMap.empty.insert RuleName.semi ⟨.error, [.string "never"]⟩

/-- What the four changes come to is written with the typed options first and read back. -/
theorem ofMap_toMap_fourEdits :
    let o := fourEdits.foldl FormatEdit.apply empty
    o.toMap.entries = [("tabWidth", .number (.natural 4)), ("semi", .bool true),
        ("endOfLine", .string "crlf")] ∧
      ofMap o.toMap = o ∧
      FormatOption.semi.read? (FormatValue.flag false).toJson = some (.flag false) ∧
      (resolve neverSemi empty o).WellFormed := by
  intro o
  obtain ⟨hedits, hderive, hresolve, hwritten, -⟩ := wellFormed_roundTrip
  have ho : o.WellFormed := by
    refine hedits fourEdits fun edit hedit => ?_
    simp only [fourEdits, List.mem_cons, List.not_mem_nil, or_false] at hedit
    rcases hedit with rfl | rfl | rfl | rfl
    · trivial
    · trivial
    · exact ⟨.bool true, rfl⟩
    · exact WellFormed.ofMap _
  obtain ⟨hentries, hback⟩ := hwritten o ho
  refine ⟨hentries.trans (by rfl), hback, ?_, hresolve _ _ _ WellFormed.empty ho⟩
  exact hderive .semi neverSemi (.flag false) (by rfl)

end FormatOptions

end Concord
