import Concord.Proofs.Derivation.Table

/-!
# The limit on the length of lines

The width at which a formatter wraps lines is derived from the rule about long lines. Its limit is
the rule's first option or the field `code` of that. A limit that is an integer of 32 bits becomes
the width (`FormatOption.derive_printWidth_iff`), and all others leave the width to the fallback
(`FormatOptions.printWidth_of_limit`). Zero is such an integer, so that a derived width is positive
except where the rule has that limit.
-/

namespace Concord

/-- An integer that makes sense as a number of columns: from `1` to `2 ^ 32 - 1`. -/
def Json.IsColumns (v : Json) : Prop :=
  ∃ n : UInt64, v = .number (.natural n) ∧ 1 ≤ n.toNat ∧ n.toNat < UInt32.size

/-- The integer zero. -/
def Json.zero : Json := .number (.natural 0)

/-- The rule about long lines is on, and this is its limit. -/
def RuleSet.LimitsLines (rules : RuleSet) (limit : Json) : Prop :=
  rules.Gives "max-len" limit ∨
    ∃ fields, rules.Gives "max-len" (.object fields) ∧ fields.lookup "code" = some limit

/-! ## Integers of 32 bits -/

/-- A number of columns is a positive integer of 32 bits. -/
theorem Json.isColumns_iff {v : Json} :
    v.IsColumns ↔ ∃ columns : UInt32, v = .number (.natural columns.toUInt64) ∧ columns ≠ 0 := by
  constructor
  · rintro ⟨n, rfl, hpositive, hsmall⟩
    have hread : (Json.number (.natural n)).natural32? = some n.toUInt32 := if_pos hsmall
    refine ⟨n.toUInt32, natural32?_eq_some_iff.1 hread, ?_⟩
    intro hzero
    have hnat : n.toNat % UInt32.size = 0 := congrArg UInt32.toNat hzero
    rw [Nat.mod_eq_of_lt hsmall] at hnat
    omega
  · rintro ⟨columns, rfl, hne⟩
    refine ⟨columns.toUInt64, rfl, ?_, ?_⟩
    · rw [UInt32.toNat_toUInt64]
      exact Nat.pos_of_ne_zero fun h => hne (UInt32.toNat_inj.1 h)
    · rw [UInt32.toNat_toUInt64]
      exact columns.toNat_lt

/-- Beside the numbers of columns zero is the only integer of 32 bits. -/
theorem Json.isColumns_or_eq_zero (columns : UInt32) :
    (Json.number (.natural columns.toUInt64)).IsColumns ∨
      Json.number (.natural columns.toUInt64) = .zero := by
  by_cases hzero : columns = 0
  · right
    rw [hzero]
    rfl
  · exact .inl (isColumns_iff.2 ⟨columns, rfl, hzero⟩)

/-! ## The derived width -/

namespace FormatOption

/-- Any integer of 32 bits is taken for the width of a line, zero among them. -/
theorem means_printWidth_iff {raw : Json} {value : FormatValue} :
    Means .printWidth raw value ↔
      ∃ columns : UInt32, raw = .number (.natural columns.toUInt64) ∧ value = .width columns := by
  constructor
  · intro h
    cases h with
    | width _ columns => exact ⟨columns, rfl, rfl⟩
    | flag hkey => simp at hkey
    | always hkey | never hkey => simp at hkey
  · rintro ⟨columns, rfl, rfl⟩
    exact .width (.inl rfl) columns

/-- A width is derived exactly from limits that are integers of 32 bits, and it is the limit. -/
theorem derive_printWidth_iff {rules : RuleSet} {value : FormatValue} :
    printWidth.derive rules = .concrete value ↔
      ∃ columns : UInt32, rules.LimitsLines (.number (.natural columns.toUInt64)) ∧
        value = .width columns := by
  rw [derive_eq_concrete_iff]
  constructor
  · rintro ⟨name, v, raw, ⟨⟩, hgives, hpart, hmeans⟩
    obtain ⟨columns, rfl, rfl⟩ := means_printWidth_iff.1 hmeans
    refine ⟨columns, ?_, rfl⟩
    cases hpart with
    | itself => exact .inl hgives
    | code hraw => exact .inr ⟨_, hgives, hraw⟩
  · rintro ⟨columns, hlimit, rfl⟩
    have hmeans := means_printWidth_iff.2 ⟨columns, rfl, rfl⟩
    rcases hlimit with hgives | ⟨fields, hgives, hraw⟩
    · exact ⟨_, _, _, .printWidth, hgives, .ofNe (by decide) _, hmeans⟩
    · exact ⟨_, _, _, .printWidth, hgives, .code hraw, hmeans⟩

theorem value?_derive_printWidth_eq_none {rules : RuleSet}
    (h : ∀ value, printWidth.derive rules ≠ .concrete value) :
    (printWidth.derive rules).value? = none := by
  rw [Option.eq_none_iff_forall_ne_some]
  exact fun value hvalue => h value (Derived.value?_eq_some_iff.1 hvalue)

end FormatOption

namespace FormatOptions

/-- Where the rule about long lines has a limit that is a number of columns, that is the derived
width. Every derived width is a number of columns, unless the rule has the limit zero. From any
other limit no width is derived, and it comes from the fallback where it is not given. -/
theorem printWidth_of_limit (rules : RuleSet) :
    (∀ limit : Json, limit.IsColumns → rules.LimitsLines limit →
      ∃ value, FormatOption.printWidth.derive rules = .concrete value ∧ value.toJson = limit) ∧
    (∀ value, FormatOption.printWidth.derive rules = .concrete value →
      rules.LimitsLines value.toJson ∧ (value.toJson.IsColumns ∨ value.toJson = .zero)) ∧
    ((∀ limit, rules.LimitsLines limit → ¬ limit.IsColumns ∧ limit ≠ .zero) →
      (∀ value, FormatOption.printWidth.derive rules ≠ .concrete value) ∧
      ∀ explicit fallback : FormatOptions, explicit.get? .printWidth = none →
        (rules.bundle.find? "printWidth").bind FormatOption.printWidth.read? = none →
        (resolve rules explicit fallback).get? .printWidth = fallback.get? .printWidth) := by
  refine ⟨?_, ?_, ?_⟩
  · intro limit hcolumns hlimit
    obtain ⟨columns, rfl, -⟩ := Json.isColumns_iff.1 hcolumns
    exact ⟨_, FormatOption.derive_printWidth_iff.2 ⟨columns, hlimit, rfl⟩, rfl⟩
  · intro value hvalue
    obtain ⟨columns, hlimit, rfl⟩ := FormatOption.derive_printWidth_iff.1 hvalue
    exact ⟨hlimit, Json.isColumns_or_eq_zero columns⟩
  · intro hunusable
    have hnone : ∀ value, FormatOption.printWidth.derive rules ≠ .concrete value := by
      intro value hvalue
      obtain ⟨columns, hlimit, -⟩ := FormatOption.derive_printWidth_iff.1 hvalue
      obtain ⟨hcolumns, hzero⟩ := hunusable _ hlimit
      exact (Json.isColumns_or_eq_zero columns).elim hcolumns hzero
    refine ⟨hnone, fun explicit fallback hexplicit hembedded => ?_⟩
    have hderived := FormatOption.value?_derive_printWidth_eq_none hnone
    have hname : FormatOption.printWidth.name = "printWidth" := rfl
    rw [get?_resolve, hexplicit, hname, hembedded, hderived]
    simp only [firstPresent_cons, firstPresent_nil, Option.none_or, Option.or_none]

/-- A rule set with a rule about long lines alone, which is on and has this first option. -/
def limitedTo (option : Json) : RuleSet := SortedMap.empty.insert "max-len" ⟨.error, [option]⟩

/-- The limit that a rule sets is its whole option, or the field for code in it. -/
theorem limitsLines_limitedTo {option limit : Json} :
    (limitedTo option).LimitsLines limit ↔
      option = limit ∨ ∃ fields, option = .object fields ∧ fields.lookup "code" = some limit := by
  have hgives : ∀ v, (limitedTo option).Gives "max-len" v ↔ option = v := by
    intro v
    have hpayload : (limitedTo option).payload? "max-len" = some option := rfl
    rw [RuleSet.gives_iff, hpayload, Option.some.injEq]
  simp only [RuleSet.LimitsLines, hgives]

/-- An option with a limit that has more than 32 bits. -/
def tooWide : Json := .object [("code", .number (.natural 4294967296))]

/-- The width is one more than an integer of 32 bits can be. -/
theorem not_isColumns_of_limitsLines_tooWide {limit : Json}
    (h : (limitedTo tooWide).LimitsLines limit) : ¬ limit.IsColumns ∧ limit ≠ .zero := by
  rcases limitsLines_limitedTo.1 h with rfl | ⟨fields, hfields, hcode⟩
  · refine ⟨?_, nofun⟩
    rintro ⟨n, hnumber, -, -⟩
    cases hnumber
  · cases hfields
    obtain rfl : Json.number (.natural 4294967296) = limit := Option.some.inj hcode
    refine ⟨?_, by simp [Json.zero]⟩
    rintro ⟨n, hnumber, -, hsmall⟩
    cases hnumber
    exact absurd hsmall (by decide)

/-- A fallback of 80 columns. -/
def eightyColumns : FormatOptions := empty.insert .printWidth (.width 80)

/-- A limit of 120 columns is the width, and one that has too many bits leaves it to the
fallback. -/
theorem printWidth_limitedTo :
    (∃ value, FormatOption.printWidth.derive (limitedTo (.number (.natural 120))) =
      .concrete value ∧ value.toJson = .number (.natural 120)) ∧
    (resolve (limitedTo tooWide) empty eightyColumns).get? .printWidth = some (.width 80) := by
  obtain ⟨hderived, -⟩ := printWidth_of_limit (limitedTo (.number (.natural 120)))
  obtain ⟨-, -, hfallback⟩ := printWidth_of_limit (limitedTo tooWide)
  constructor
  · have hcolumns : (Json.number (.natural 120)).IsColumns := ⟨120, rfl, by decide, by decide⟩
    exact hderived _ hcolumns (limitsLines_limitedTo.2 (.inl rfl))
  · have hunusable := hfallback fun limit => not_isColumns_of_limitsLines_tooWide
    exact hunusable.2 empty eightyColumns rfl rfl

/-- A limit of zero, which is not a number of columns, is the width although there is a fallback. -/
theorem printWidth_of_zeroLimit :
    (limitedTo .zero).LimitsLines .zero ∧
      (∀ limit, (limitedTo .zero).LimitsLines limit → ¬ limit.IsColumns) ∧
      FormatOption.printWidth.derive (limitedTo .zero) = .concrete (.width 0) ∧
      (resolve (limitedTo .zero) empty eightyColumns).get? .printWidth = some (.width 0) ∧
      eightyColumns.get? .printWidth = some (.width 80) := by
  refine ⟨limitsLines_limitedTo.2 (.inl rfl), ?_, rfl, rfl, rfl⟩
  intro limit hlimit
  rcases limitsLines_limitedTo.1 hlimit with rfl | ⟨fields, hfields, -⟩
  · rintro ⟨n, hnumber, hpositive, -⟩
    cases hnumber
    exact absurd hpositive (by decide)
  · cases hfields

end FormatOptions

end Concord
