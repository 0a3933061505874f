import Concord.Proofs.Derivation.Payload
import Concord.Proofs.Derivation.WellFormed

/-!
# The decision table

The table from rules to options, written down as three relations: which rule is consulted for an
option, which part of the rule's first option is looked at, and what the shapes of that part mean.
Derivation gives the value of a cell where there is one, says that the option is disabled where the
consulted rule is off, and nothing anywhere else (`FormatOption.derive_table`).
-/

namespace Concord

/-- Looking closer at a derived value does not turn it off. -/
theorem Derived.andThen_eq_disabled_iff {α β : Type} {d : Derived α} {f : α → Option β} :
    d.andThen f = .disabled ↔ d = .disabled := by
  cases d with
  | concrete value => cases h : f value <;> simp [andThen, h]
  | _ => simp [andThen]

/-! ## Rules as the table sees them -/

namespace RuleSet

variable {rules : RuleSet} {name : String} {part : ValuePart}

/-- A rule is configured and off. -/
def Off (rules : RuleSet) (name : String) : Prop :=
  ∃ entry, rules.find? name = some entry ∧ entry.severity = .off

/-- A rule is configured and on, and this is its first option. -/
def Gives (rules : RuleSet) (name : String) (v : Json) : Prop :=
  ∃ entry, rules.find? name = some entry ∧ entry.severity ≠ .off ∧ entry.options.head? = some v

/-- The rule about indentation asks for tabs. -/
def IndentsWithTabs (rules : RuleSet) : Prop := rules.Gives "indent" (.string "tab")

/-- What a rule gives is its payload. -/
theorem gives_iff {v : Json} : rules.Gives name v ↔ rules.payload? name = some v := by
  unfold Gives payload?
  rw [Option.bind_eq_some_iff]
  refine exists_congr fun entry => and_congr_right fun _ => ?_
  rw [RuleEntry.payload?_eq]
  by_cases hoff : entry.severity = .off <;> simp [RuleEntry.isOff, hoff]

/-- A value is off exactly if its rule is, whichever part of the payload is wanted. -/
theorem valueOf_eq_disabled_iff : rules.valueOf name part = .disabled ↔ rules.Off name := by
  unfold valueOf Off
  cases rules.find? name with
  | none => simp
  | some entry =>
    by_cases hoff : entry.severity = .off
    · simp [RuleEntry.state, RuleEntry.isOff, hoff]
    · cases hoptions : entry.options with
      | nil => simp [RuleEntry.state, RuleEntry.isOff, hoff, hoptions]
      | cons v rest => cases h : part.of? v <;>
          simp [RuleEntry.state, RuleEntry.isOff, hoff, hoptions, h]

/-- A value is concrete exactly if its rule gives a payload with the part that is wanted. -/
theorem valueOf_eq_concrete_iff {raw : Json} :
    rules.valueOf name part = .concrete raw ↔
      ∃ v, rules.Gives name v ∧ part.of? v = some raw := by
  rw [← Derived.value?_eq_some_iff, value?_valueOf, Option.bind_eq_some_iff]
  simp only [gives_iff]

/-! ## The indentation width -/

/-- Only the word itself counts as tabs, not an object with the word in it. -/
theorem primitive_of_tab_iff {v : Json} :
    ValuePart.primitive.of? v = some (.string "tab") ↔ v = .string "tab" := by
  cases v <;> simp [ValuePart.of?, Json.isNull, Json.isStructured]

theorem indentsWithTabs_iff : rules.IndentsWithTabs ↔
    rules.valueOf RuleName.indent .primitive = .concrete (.string "tab") := by
  rw [valueOf_eq_concrete_iff]
  simp only [primitive_of_tab_iff, exists_eq_right]
  rfl

/-- With tabs the width of indentation comes from the rule on line lengths. -/
theorem indentationWidth_of_tabs (h : rules.IndentsWithTabs) :
    rules.indentationWidth = rules.valueOf RuleName.maxLen (.ownField "tabWidth") := by
  rw [indentationWidth, indentsWithTabs_iff.1 h]
  rfl

/-- Without tabs the width of indentation comes from the rule on indentation. -/
theorem indentationWidth_of_not_tabs (h : ¬ rules.IndentsWithTabs) :
    rules.indentationWidth = rules.valueOf RuleName.indent .primitive := by
  rw [indentsWithTabs_iff] at h
  unfold indentationWidth
  split
  · next s hs =>
    have hne : s ≠ "tab" := by
      rintro rfl
      exact h hs
    rw [if_neg hne, hs]
  · rfl

end RuleSet

/-! ## Shapes of values -/

namespace FormatOption

/-- An object of words for constructs wants commas always in one of them, perhaps under a
condition. -/
def AlwaysIn (fields : List (String × Json)) (construct : String) : Prop :=
  ∃ word, fields.lookup construct = some (.string word) ∧ "always".toList <+: word.toList

/-- What a value means for an option. -/
inductive Means : FormatOption → Json → FormatValue → Prop where
  | width {key : FormatOption} (hkey : key = .printWidth ∨ key = .tabWidth) (columns : UInt32) :
      Means key (.number (.natural columns.toUInt64)) (.width columns)
  | flag {key : FormatOption} (hkey : key ∈ [singleQuote, bracketSpacing, semi, jsxBracketSameLine])
      (b : Bool) : Means key (.bool b) (.flag b)
  | single : Means .singleQuote (.string "single") (.flag true)
  | double : Means .singleQuote (.string "double") (.flag false)
  | backtick : Means .singleQuote (.string "backtick") (.flag false)
  | noCommas : Means .trailingComma (.string "never") (.trailingComma .none)
  | commas {word : String} (hword : "always".toList <+: word.toList) :
      Means .trailingComma (.string word) (.trailingComma .es5)
  | commasInAll {fields : List (String × Json)} (hfunctions : AlwaysIn fields "functions") :
      Means .trailingComma (.object fields) (.trailingComma .all)
  | commasInSome {fields : List (String × Json)} (hfunctions : ¬ AlwaysIn fields "functions")
      (hsome : AlwaysIn fields "arrays" ∨ AlwaysIn fields "objects") :
      Means .trailingComma (.object fields) (.trailingComma .es5)
  | commasInNone {fields : List (String × Json)} (hfunctions : ¬ AlwaysIn fields "functions")
      (hnone : ¬ (AlwaysIn fields "arrays" ∨ AlwaysIn fields "objects")) :
      Means .trailingComma (.object fields) (.trailingComma .none)
  | always {key : FormatOption} (hkey : key = .bracketSpacing ∨ key = .semi) :
      Means key (.string "always") (.flag true)
  | never {key : FormatOption} (hkey : key = .bracketSpacing ∨ key = .semi) :
      Means key (.string "never") (.flag false)
  | tab : Means .useTabs (.string "tab") (.flag true)
  | afterProps : Means .jsxBracketSameLine (.string "after-props") (.flag true)
  | aligned {word : String} (hword : word ∈ ["tag-aligned", "line-aligned", "props-aligned"]) :
      Means .jsxBracketSameLine (.string word) (.flag false)
  | asNeeded : Means .arrowParens (.string "as-needed") (.arrowParens .avoid)
  | parens : Means .arrowParens (.string "always") (.arrowParens .always)

theorem startsWithAlways_iff {word : String} :
    startsWithAlways word = true ↔ "always".toList <+: word.toList :=
  List.isPrefixOf_iff_prefix

/-- A construct has trailing commas if the word for it starts with the word for always. -/
theorem startsWithAlways_wordFor {fields : List (String × Json)} {construct : String} :
    startsWithAlways (CommaDangle.wordFor (.object fields) construct) = true ↔
      AlwaysIn fields construct := by
  unfold CommaDangle.wordFor AlwaysIn Json.field?
  cases h : fields.lookup construct with
  | none => simp [Json.object?, h]; decide
  | some v =>
    cases v with
    | string word => simp [Json.object?, h, Json.string?, startsWithAlways_iff]
    | _ => simp [Json.object?, h, Json.string?]; decide

theorem startsWithAlways_or_iff {fields : List (String × Json)} {one other : String} :
    (startsWithAlways (CommaDangle.wordFor (.object fields) one) ||
        startsWithAlways (CommaDangle.wordFor (.object fields) other)) = true ↔
      AlwaysIn fields one ∨ AlwaysIn fields other := by
  rw [Bool.or_eq_true, startsWithAlways_wordFor, startsWithAlways_wordFor]

/-! ### From values to cells -/

/-- What the reader of widths accepts is a width in the table, for both options that it reads. -/
theorem means_of_widthOf {key : FormatOption} (hkey : key = .printWidth ∨ key = .tabWidth)
    {v : Json} {value : FormatValue} (h : widthOf v = some value) : Means key v value := by
  rw [widthOf_eq] at h
  obtain ⟨columns, hcolumns, rfl⟩ := Option.map_eq_some_iff.1 h
  rw [Json.natural32?_eq_some_iff.1 hcolumns]
  exact .width hkey columns

theorem means_of_singleQuoteOf {v : Json} {value : FormatValue}
    (h : singleQuoteOf v = some value) : Means .singleQuote v value := by
  cases v with
  | bool b =>
    cases h
    exact .flag (by decide) b
  | string word =>
    by_cases hsingle : word = "single"
    · subst hsingle
      cases h
      exact .single
    by_cases hdouble : word = "double"
    · subst hdouble
      cases h
      exact .double
    by_cases hbacktick : word = "backtick"
    · subst hbacktick
      cases h
      exact .backtick
    · simp [singleQuoteOf, QuoteStyle.read?, Json.string?, Json.bool?, hsingle, hdouble,
        hbacktick] at h
  | _ => cases h

theorem means_of_trailingCommaOf {v : Json} {value : FormatValue}
    (h : trailingCommaOf v = some value) : Means .trailingComma v value := by
  obtain ⟨choice, hchoice, rfl⟩ := Option.map_eq_some_iff.1 h
  cases v with
  | string word =>
    rw [CommaDangle.read?] at hchoice
    split_ifs at hchoice with hnever halways <;> cases hchoice
    · rw [hnever]
      exact .noCommas
    · exact .commas (startsWithAlways_iff.1 halways)
  | object fields =>
    cases hchoice
    rw [CommaDangle.toTrailingComma]
    split_ifs with hfunctions hsome
    · exact .commasInAll (startsWithAlways_wordFor.1 hfunctions)
    · rw [startsWithAlways_wordFor] at hfunctions
      exact .commasInSome hfunctions (startsWithAlways_or_iff.1 hsome)
    · rw [startsWithAlways_wordFor] at hfunctions
      rw [startsWithAlways_or_iff] at hsome
      exact .commasInNone hfunctions hsome
  | _ => cases hchoice

theorem means_of_toggleOf {key : FormatOption} (hkey : key = .bracketSpacing ∨ key = .semi)
    {v : Json} {value : FormatValue} (h : toggleOf v = some value) : Means key v value := by
  have hflag : key ∈ [singleQuote, bracketSpacing, semi, jsxBracketSameLine] := by
    rcases hkey with rfl | rfl <;> decide
  cases v with
  | bool b =>
    cases h
    exact .flag hflag b
  | string word =>
    by_cases halways : word = "always"
    · subst halways
      cases h
      exact .always hkey
    by_cases hnever : word = "never"
    · subst hnever
      cases h
      exact .never hkey
    · simp [toggleOf, Toggle.read?, Json.string?, Json.bool?, halways, hnever] at h
  | _ => cases h

theorem means_of_useTabsOf {v : Json} {value : FormatValue} (h : useTabsOf v = some value) :
    Means .useTabs v value := by
  cases v with
  | string word =>
    by_cases htab : word = "tab"
    · subst htab
      cases h
      exact .tab
    · simp [useTabsOf, Indentation.read?, htab] at h
  | number n =>
    rw [useTabsOf, Indentation.read?] at h
    · cases hn : (Json.number n).natural32? <;> simp [hn] at h
    · simp
  | _ => cases h

theorem means_of_bracketSameLineOf {v : Json} {value : FormatValue}
    (h : bracketSameLineOf v = some value) : Means .jsxBracketSameLine v value := by
  cases v with
  | bool b =>
    cases h
    exact .flag (by decide) b
  | string word =>
    by_cases hafter : word = "after-props"
    · subst hafter
      cases h
      exact .afterProps
    by_cases haligned : word ∈ ["tag-aligned", "line-aligned", "props-aligned"]
    · have hvalue : value = .flag false := by
        simp only [List.mem_cons, List.not_mem_nil, or_false] at haligned
        rcases haligned with rfl | rfl | rfl <;> cases h <;> rfl
      rw [hvalue]
      exact .aligned haligned
    · simp only [List.mem_cons, List.not_mem_nil, or_false, not_or] at haligned
      simp [bracketSameLineOf, ClosingBracket.read?, Json.string?, Json.bool?, hafter,
        haligned] at h
  | _ => cases h

theorem means_of_arrowParensOf {v : Json} {value : FormatValue} (h : arrowParensOf v = some value) :
    Means .arrowParens v value := by
  cases v with
  | string word =>
    by_cases hneeded : word = "as-needed"
    · subst hneeded
      cases h
      exact .asNeeded
    by_cases halways : word = "always"
    · subst halways
      cases h
      exact .parens
    · simp [arrowParensOf, ArrowStyle.read?, Json.string?, hneeded, halways] at h
  | _ => cases h

/-! ### From cells to values -/

/-- An object of words for trailing commas always means something: words that are missing or unknown
count as never. -/
theorem trailingComma_meaning_object (fields : List (String × Json)) :
    trailingComma.meaning (.object fields) =
      some (.trailingComma (
        if startsWithAlways (CommaDangle.wordFor (.object fields) "functions") then .all
        else if startsWithAlways (CommaDangle.wordFor (.object fields) "arrays") ||
          startsWithAlways (CommaDangle.wordFor (.object fields) "objects") then .es5
        else .none)) := rfl

/-- What stands in the table is read, cell by cell. -/
theorem meaning_of_means {key : FormatOption} {v : Json} {value : FormatValue}
    (h : Means key v value) : key.meaning v = some value := by
  cases h with
  | width hkey columns =>
    have hwidth : widthOf (.number (.natural columns.toUInt64)) = some (.width columns) := by
      rw [widthOf_eq, Json.natural32?_eq_some_iff.2 rfl]
      rfl
    rcases hkey with rfl | rfl <;> exact hwidth
  | flag hkey b =>
    simp only [List.mem_cons, List.not_mem_nil, or_false] at hkey
    rcases hkey with rfl | rfl | rfl | rfl <;> rfl
  | @commas word hword =>
    have hnever : word ≠ "never" := by
      rintro rfl
      revert hword
      decide
    have hread : CommaDangle.read? (.string word) = some (.always word) := by
      rw [CommaDangle.read?, if_neg hnever, if_pos (startsWithAlways_iff.2 hword)]
    rw [meaning, trailingCommaOf, hread]
    rfl
  | commasInAll hfunctions =>
    rw [← startsWithAlways_wordFor] at hfunctions
    rw [trailingComma_meaning_object, if_pos hfunctions]
  | commasInSome hfunctions hsome =>
    rw [← startsWithAlways_wordFor] at hfunctions
    rw [← startsWithAlways_or_iff] at hsome
    rw [trailingComma_meaning_object, if_neg hfunctions, if_pos hsome]
  | commasInNone hfunctions hnone =>
    rw [← startsWithAlways_wordFor] at hfunctions
    rw [← startsWithAlways_or_iff] at hnone
    rw [trailingComma_meaning_object, if_neg hfunctions, if_neg hnone]
  | always hkey | never hkey => rcases hkey with rfl | rfl <;> rfl
  | aligned hword =>
    simp only [List.mem_cons, List.not_mem_nil, or_false] at hword
    rcases hword with rfl | rfl | rfl <;> rfl
  | _ => rfl

/-- The readers of the nine options accept what stands in the table, and nothing else. -/
theorem meaning_eq_some_iff {key : FormatOption} {v : Json} {value : FormatValue} :
    key.meaning v = some value ↔ Means key v value := by
  refine ⟨fun h => ?_, meaning_of_means⟩
  cases key with
  | printWidth => exact means_of_widthOf (.inl rfl) h
  | tabWidth => exact means_of_widthOf (.inr rfl) h
  | singleQuote => exact means_of_singleQuoteOf h
  | trailingComma => exact means_of_trailingCommaOf h
  | bracketSpacing => exact means_of_toggleOf (.inl rfl) h
  | semi => exact means_of_toggleOf (.inr rfl) h
  | useTabs => exact means_of_useTabsOf h
  | jsxBracketSameLine => exact means_of_bracketSameLineOf h
  | arrowParens => exact means_of_arrowParensOf h

/-! ## Rules and parts -/

/-- The rule that is consulted for an option. -/
inductive Consults (rules : RuleSet) : FormatOption → String → Prop where
  | printWidth : Consults rules .printWidth "max-len"
  | tabWidth (htabs : ¬ rules.IndentsWithTabs) : Consults rules .tabWidth "indent"
  | tabWidthOfTabs (htabs : rules.IndentsWithTabs) : Consults rules .tabWidth "max-len"
  | singleQuote : Consults rules .singleQuote "quotes"
  | trailingComma : Consults rules .trailingComma "comma-dangle"
  | bracketSpacing : Consults rules .bracketSpacing "object-curly-spacing"
  | semi : Consults rules .semi "semi"
  | useTabs : Consults rules .useTabs "indent"
  | jsxBracketSameLine : Consults rules .jsxBracketSameLine "react/jsx-closing-bracket-location"
  | arrowParens : Consults rules .arrowParens "arrow-parens"

/-- The part of a rule's first option that is looked at. -/
inductive Part (rules : RuleSet) : FormatOption → Json → Json → Prop where
  | itself {key : FormatOption} (htabs : key = .tabWidth → ¬ rules.IndentsWithTabs) (v : Json) :
      Part rules key v v
  | code {fields : List (String × Json)} {raw : Json} (hraw : fields.lookup "code" = some raw) :
      Part rules .printWidth (.object fields) raw
  | tabWidth {fields : List (String × Json)} {raw : Json} (htabs : rules.IndentsWithTabs)
      (hraw : fields.lookup "tabWidth" = some raw) : Part rules .tabWidth (.object fields) raw
  | nonEmpty {fields : List (String × Json)} {raw : Json}
      (hraw : fields.lookup "nonEmpty" = some raw) :
      Part rules .jsxBracketSameLine (.object fields) raw

/-- The consulted rule is off. -/
def Disabled (key : FormatOption) (rules : RuleSet) : Prop :=
  ∃ name, Consults rules key name ∧ rules.Off name

/-- The consulted rule is on and its first option means a value. -/
def Given (key : FormatOption) (rules : RuleSet) (value : FormatValue) : Prop :=
  ∃ name v raw, Consults rules key name ∧ rules.Gives name v ∧ Part rules key v raw ∧
    Means key raw value

/-- An option comes from one rule. -/
theorem Consults.unique {rules : RuleSet} {key : FormatOption} {name other : String}
    (hname : Consults rules key name) (hother : Consults rules key other) : name = other := by
  cases hname <;> cases hother <;> first | rfl | contradiction

/-- For all options but one the whole payload counts. -/
theorem Part.ofNe {rules : RuleSet} {key : FormatOption} (hkey : key ≠ .tabWidth) (v : Json) :
    Part rules key v v :=
  .itself (fun e => absurd e hkey) v

theorem not_means_null {key : FormatOption} {value : FormatValue} : ¬ Means key .null value :=
  nofun

theorem not_means_array {key : FormatOption} {items : List Json} {value : FormatValue} :
    ¬ Means key (.array items) value :=
  nofun

/-- Only for trailing commas does an object mean something by itself. -/
theorem eq_trailingComma_of_means_object {key : FormatOption} {fields : List (String × Json)}
    {value : FormatValue} (h : Means key (.object fields) value) : key = .trailingComma := by
  cases h <;> rfl

section Parts

variable {key : FormatOption} {v : Json} {value : FormatValue}

/-- For an option that takes no objects it makes no difference if they are refused beforehand. -/
theorem means_primitive_iff (hkey : key ≠ .trailingComma) :
    (∃ raw, ValuePart.primitive.of? v = some raw ∧ Means key raw value) ↔ Means key v value := by
  cases v with
  | null => simp [ValuePart.of?, Json.isNull, not_means_null]
  | array items => simp [ValuePart.of?, Json.isNull, Json.isStructured, not_means_array]
  | object fields =>
    have hnone : ¬ Means key (.object fields) value := fun h =>
      hkey (eq_trailingComma_of_means_object h)
    simp [ValuePart.of?, Json.isNull, Json.isStructured, hnone]
  | _ => simp [ValuePart.of?, Json.isNull, Json.isStructured]

theorem means_whole_iff :
    (∃ raw, ValuePart.whole.of? v = some raw ∧ Means key raw value) ↔ Means key v value := by
  cases v with
  | null => simp [ValuePart.of?, Json.isNull, not_means_null]
  | _ => simp [ValuePart.of?, Json.isNull]

theorem means_ownField_iff {name : String} :
    (∃ raw, (ValuePart.ownField name).of? v = some raw ∧ Means key raw value) ↔
      ∃ fields raw, v = .object fields ∧ fields.lookup name = some raw ∧ Means key raw value := by
  cases v <;> simp [ValuePart.of?, Json.isNull, Json.field?, Json.object?]

/-- A payload counts by itself, or by the field that is wanted. -/
theorem means_field_iff (hkey : key ≠ .trailingComma) {name : String} :
    (∃ raw, (ValuePart.field name).of? v = some raw ∧ Means key raw value) ↔
      Means key v value ∨
        ∃ fields raw, v = .object fields ∧ fields.lookup name = some raw ∧ Means key raw value := by
  cases v with
  | null => simp [ValuePart.of?, Json.isNull, not_means_null]
  | array items =>
    simp [ValuePart.of?, Json.isNull, Json.isStructured, Json.field?, Json.object?,
      not_means_array]
  | object fields =>
    have hnone : ¬ Means key (.object fields) value := fun h =>
      hkey (eq_trailingComma_of_means_object h)
    simp [ValuePart.of?, Json.isNull, Json.isStructured, Json.field?, Json.object?, hnone]
  | _ => simp [ValuePart.of?, Json.isNull, Json.isStructured]

end Parts

/-- Where an option is read from: a rule and a part of its first option. -/
structure Source (rules : RuleSet) (key : FormatOption) (name : String) (part : ValuePart) :
    Prop where
  extracted : key.extract rules = rules.valueOf name part
  consulted : Consults rules key name
  means : ∀ v value, (∃ raw, part.of? v = some raw ∧ Means key raw value) ↔
    ∃ raw, Part rules key v raw ∧ Means key raw value

/-- Options that want a payload without fields have their value straight from the rule. -/
theorem source_of_primitive {rules : RuleSet} {key : FormatOption} {name : String}
    (hextract : key.extract rules = rules.valueOf name .primitive) (hrule : Consults rules key name)
    (hcommas : key ≠ .trailingComma) (hpart : ∀ v raw, Part rules key v raw → raw = v)
    (htabs : key = .tabWidth → ¬ rules.IndentsWithTabs) : Source rules key name .primitive := by
  refine ⟨hextract, hrule, fun v value => (means_primitive_iff hcommas).trans ⟨?_, ?_⟩⟩
  · intro h
    exact ⟨v, .itself htabs v, h⟩
  · rintro ⟨raw, hraw, h⟩
    rwa [hpart v raw hraw] at h

/-- Every option has a source. The indentation width has one of two, depending on whether the rule
about indentation asks for tabs. -/
theorem exists_source (rules : RuleSet) (key : FormatOption) :
    ∃ name part, Source rules key name part := by
  cases key with
  | printWidth =>
    refine ⟨_, _, rfl, .printWidth, fun v value => (means_field_iff (by decide)).trans ⟨?_, ?_⟩⟩
    · rintro (h | ⟨fields, raw, rfl, hraw, h⟩)
      · exact ⟨v, .ofNe (by decide) v, h⟩
      · exact ⟨raw, .code hraw, h⟩
    · rintro ⟨raw, hpart, h⟩
      cases hpart with
      | itself => exact .inl h
      | code hraw => exact .inr ⟨_, raw, rfl, hraw, h⟩
  | jsxBracketSameLine =>
    refine ⟨_, _, rfl, .jsxBracketSameLine, fun v value =>
      (means_field_iff (by decide)).trans ⟨?_, ?_⟩⟩
    · rintro (h | ⟨fields, raw, rfl, hraw, h⟩)
      · exact ⟨v, .ofNe (by decide) v, h⟩
      · exact ⟨raw, .nonEmpty hraw, h⟩
    · rintro ⟨raw, hpart, h⟩
      cases hpart with
      | itself => exact .inl h
      | nonEmpty hraw => exact .inr ⟨_, raw, rfl, hraw, h⟩
  | tabWidth =>
    by_cases htabs : rules.IndentsWithTabs
    · refine ⟨_, _, RuleSet.indentationWidth_of_tabs htabs, .tabWidthOfTabs htabs, fun v value =>
        means_ownField_iff.trans ⟨?_, ?_⟩⟩
      · rintro ⟨fields, raw, rfl, hraw, h⟩
        exact ⟨raw, .tabWidth htabs hraw, h⟩
      · rintro ⟨raw, hpart, h⟩
        cases hpart with
        | itself hnot => exact absurd htabs (hnot rfl)
        | tabWidth _ hraw => exact ⟨_, raw, rfl, hraw, h⟩
    · refine ⟨_, _, source_of_primitive (RuleSet.indentationWidth_of_not_tabs htabs)
        (.tabWidth htabs) (by decide) (fun v raw hpart => ?_) fun _ => htabs⟩
      cases hpart with
      | itself => rfl
      | tabWidth hyes => exact absurd hyes htabs
  | trailingComma =>
    refine ⟨_, _, rfl, .trailingComma, fun v value => means_whole_iff.trans ⟨?_, ?_⟩⟩
    · intro h
      exact ⟨v, .ofNe (by decide) v, h⟩
    · rintro ⟨raw, ⟨⟩, h⟩
      exact h
  | singleQuote | bracketSpacing | semi | useTabs | arrowParens =>
    refine ⟨_, _, source_of_primitive rfl (by constructor) (by decide) ?_ nofun⟩
    rintro v raw ⟨⟩
    rfl

/-! ## The table -/

/-- An option is turned off exactly if the rule that it comes from is off. -/
theorem derive_eq_disabled_iff {rules : RuleSet} {key : FormatOption} :
    key.derive rules = .disabled ↔ key.Disabled rules := by
  obtain ⟨name, part, hsource⟩ := exists_source rules key
  rw [derive, normalize, Derived.andThen_eq_disabled_iff, hsource.extracted,
    RuleSet.valueOf_eq_disabled_iff]
  constructor
  · intro hoff
    exact ⟨name, hsource.consulted, hoff⟩
  · rintro ⟨other, hother, hoff⟩
    rwa [hsource.consulted.unique hother]

/-- An option has a value exactly if its rule gives one that stands in the table. -/
theorem derive_eq_concrete_iff {rules : RuleSet} {key : FormatOption} {value : FormatValue} :
    key.derive rules = .concrete value ↔ key.Given rules value := by
  obtain ⟨name, part, hsource⟩ := exists_source rules key
  rw [derive, normalize, ← Derived.value?_eq_some_iff, Derived.value?_andThen,
    Option.bind_eq_some_iff]
  simp only [Derived.value?_eq_some_iff, meaning_eq_some_iff, hsource.extracted,
    RuleSet.valueOf_eq_concrete_iff]
  constructor
  · rintro ⟨raw, ⟨v, hgives, hpart⟩, hmeans⟩
    obtain ⟨raw', hpart', hmeans'⟩ := (hsource.means v value).1 ⟨raw, hpart, hmeans⟩
    exact ⟨name, v, raw', hsource.consulted, hgives, hpart', hmeans'⟩
  · rintro ⟨other, v, raw, hother, hgives, hpart, hmeans⟩
    obtain ⟨raw', hpart', hmeans'⟩ := (hsource.means v value).2 ⟨raw, hpart, hmeans⟩
    rw [← hsource.consulted.unique hother] at hgives
    exact ⟨raw', ⟨v, hgives, hpart'⟩, hmeans'⟩

/-- One rule is consulted for each option. The option is disabled if that rule is off, it has the
value that the rule's first option means if the rule is on and there is such a value, and nothing is
configured in all other cases. -/
theorem derive_table (rules : RuleSet) (key : FormatOption) :
    (∃! name, Consults rules key name) ∧
    (key.derive rules = .disabled ↔ key.Disabled rules) ∧
    (∀ value, key.derive rules = .concrete value ↔ key.Given rules value) ∧
    (key.derive rules = .notConfigured ↔
      ¬ key.Disabled rules ∧ ∀ value, ¬ key.Given rules value) := by
  refine ⟨?_, derive_eq_disabled_iff, fun _ => derive_eq_concrete_iff, ?_⟩
  · obtain ⟨name, part, hsource⟩ := exists_source rules key
    exact ⟨name, hsource.consulted, fun other hother => hother.unique hsource.consulted⟩
  · simp only [← derive_eq_disabled_iff, ← derive_eq_concrete_iff]
    cases key.derive rules <;> simp

example : tabWidth.derive
    ((SortedMap.empty.insert "indent" ⟨.error, [.string "tab"]⟩).insert "max-len"
      ⟨.warn, [.object [("code", .number (.natural 100)), ("tabWidth", .number (.natural 8))]]⟩) =
    .concrete (.width 8) := by rfl

end FormatOption
end Concord
