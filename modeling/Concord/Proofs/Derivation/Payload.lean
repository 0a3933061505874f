import Concord.Proofs.Derivation.Resolution
import Concord.Proofs.Map.Sorted

/-!
# What derivation sees of a rule set

Derivation looks at nine rules, and of each at its payload: the first option, if the rule is on.
Whether a rule without a payload is off, bare or absent is told apart on the way, but leaves no
trace in the options that come out (`FormatOptions.resolve_payloads`).
-/

namespace Concord

/-- The rules that derivation looks at. -/
def RuleName.inspected : List String :=
  [formatter, maxLen, indent, quotes, commaDangle, objectCurlySpacing, semi, closingBracket,
    arrowParens]

/-- The payload of a rule is the first of its options, unless the rule is off. -/
theorem RuleEntry.payload?_eq (entry : RuleEntry) :
    entry.payload? = if entry.isOff then none else entry.options.head? := by
  unfold payload? state
  cases entry.isOff with
  | true => rfl
  | false => cases entry.options <;> rfl

namespace RuleSet

/-! ## From payloads to options -/

/-- The raw indentation width, read off the payloads of two rules. -/
theorem value?_indentationWidth (rules : RuleSet) :
    rules.indentationWidth.value? =
      match (rules.payload? RuleName.indent).bind ValuePart.primitive.of? with
      | some (.string s) =>
        if s = "tab" then
          (rules.payload? RuleName.maxLen).bind (ValuePart.ownField "tabWidth").of?
        else some (.string s)
      | raw => raw := by
  rw [← value?_valueOf, ← value?_valueOf]
  unfold indentationWidth
  -- Only the word for tabs makes the rule about long lines matter.
  cases rules.valueOf RuleName.indent .primitive with
  | notConfigured => rfl
  | disabled => rfl
  | concrete value =>
    cases value with
    | string s => by_cases htab : s = "tab" <;> simp [Derived.value?, htab]
    | _ => rfl

variable {r s : RuleSet}

/-- The values that are taken from rules depend on payloads alone. -/
theorem value?_extract_congr
    (h : ∀ name ∈ RuleName.inspected, r.payload? name = s.payload? name) (key : FormatOption) :
    (key.extract r).value? = (key.extract s).value? := by
  have hvalue : ∀ name ∈ RuleName.inspected, ∀ part,
      (r.valueOf name part).value? = (s.valueOf name part).value? := by
    intro name hname part
    rw [value?_valueOf, value?_valueOf, h name hname]
  cases key with
  | tabWidth =>
    -- The one option whose raw value comes from two rules.
    have hindent := h RuleName.indent (by decide)
    have hmaxLen := h RuleName.maxLen (by decide)
    rw [FormatOption.extract, FormatOption.extract, value?_indentationWidth,
      value?_indentationWidth, hindent, hmaxLen]
  | _ => exact hvalue _ (by decide) _

theorem value?_derive_congr
    (h : ∀ name ∈ RuleName.inspected, r.payload? name = s.payload? name) (key : FormatOption) :
    (key.derive r).value? = (key.derive s).value? := by
  unfold FormatOption.derive FormatOption.normalize
  rw [Derived.value?_andThen, Derived.value?_andThen, value?_extract_congr h]

theorem bundle_congr (h : r.payload? RuleName.formatter = s.payload? RuleName.formatter) :
    r.bundle = s.bundle := by
  rw [bundle, bundle, h]

/-- Rule sets with the same payloads resolve to the same options, whatever is given besides. -/
theorem resolve_congr (h : ∀ name ∈ RuleName.inspected, r.payload? name = s.payload? name)
    (explicit fallback : FormatOptions) :
    FormatOptions.resolve r explicit fallback = FormatOptions.resolve s explicit fallback := by
  have hbundle : r.bundle = s.bundle := bundle_congr (h _ (by decide))
  refine FormatOptions.ext_get? (fun key => ?_) ?_
  · rw [FormatOptions.get?_resolve, FormatOptions.get?_resolve, hbundle, value?_derive_congr h]
  · rw [FormatOptions.extra_resolve, FormatOptions.extra_resolve, hbundle]

/-! ## Changes that leave payloads alone -/

/-- A rule that is off has no payload, so that it might as well be missing. -/
theorem payload?_filterValues_isOff (rules : RuleSet) (name : String) :
    payload? (rules.filterValues fun entry => !entry.isOff) name = rules.payload? name := by
  unfold payload?
  rw [SortedMap.find?_filterValues]
  cases rules.find? name with
  | none => rfl
  | some entry => cases hoff : entry.isOff <;> simp [Option.filter, RuleEntry.payload?_eq, hoff]

/-- Entries may be changed as long as rules stay on or off and keep their first options. -/
theorem payload?_mapEntries (rules : RuleSet) {change : String → RuleEntry → RuleEntry}
    (hoff : ∀ name entry, (change name entry).isOff = entry.isOff)
    (hfirst : ∀ name entry, (change name entry).options.head? = entry.options.head?)
    (name : String) : payload? (rules.mapEntries change) name = rules.payload? name := by
  unfold payload?
  rw [SortedMap.find?_mapEntries]
  cases rules.find? name with
  | none => rfl
  | some entry => simp [RuleEntry.payload?_eq, hoff, hfirst]

/-- A rule has no say in the payloads of others. -/
theorem payload?_insert_of_ne (rules : RuleSet) {other name : String} (hname : name ≠ other)
    (entry : RuleEntry) : payload? (rules.insert other entry) name = rules.payload? name := by
  unfold payload?
  rw [SortedMap.find?_insert, if_neg hname]

end RuleSet

/-- Warnings made errors and errors made warnings. -/
def Severity.swapped : Severity → Severity
  | .off => .off
  | .warn => .error
  | .error => .warn

namespace RuleEntry

/-- The entry with its options from the second one on changed. -/
def changeLater (change : List Json → List Json) (entry : RuleEntry) : RuleEntry :=
  match entry.options with
  | [] => entry
  | first :: later => { entry with options := first :: change later }

theorem isOff_changeLater (change : List Json → List Json) (entry : RuleEntry) :
    (entry.changeLater change).isOff = entry.isOff := by
  unfold changeLater
  split <;> rfl

/-- The first option is the payload; a change to later ones leaves it alone. -/
theorem head?_options_changeLater (change : List Json → List Json) (entry : RuleEntry) :
    (entry.changeLater change).options.head? = entry.options.head? := by
  unfold changeLater
  split
  · rfl
  · next h => rw [h]; rfl

end RuleEntry

namespace FormatOptions

/-- The options handed to the formatter depend on the payloads of the inspected rules alone. Hence
they are the same without the rules that are off, with other severities as long as rules stay on or
off, with other options behind the first ones, and with more rules that are not inspected. -/
theorem resolve_payloads (explicit fallback : FormatOptions) :
    (∀ r s : RuleSet, (∀ name ∈ RuleName.inspected, r.payload? name = s.payload? name) →
      resolve r explicit fallback = resolve s explicit fallback) ∧
    (∀ rules : RuleSet, resolve (rules.filterValues fun entry => !entry.isOff) explicit fallback =
      resolve rules explicit fallback) ∧
    (∀ (rules : RuleSet) (change : String → Severity → Severity),
      (∀ name severity, change name severity = .off ↔ severity = .off) →
      resolve (rules.mapEntries fun name entry =>
          { entry with severity := change name entry.severity }) explicit fallback =
        resolve rules explicit fallback) ∧
    (∀ (rules : RuleSet) (change : String → List Json → List Json),
      resolve (rules.mapEntries fun name entry => entry.changeLater (change name)) explicit
        fallback = resolve rules explicit fallback) ∧
    ∀ (rules : RuleSet) (other : String) (entry : RuleEntry), other ∉ RuleName.inspected →
      resolve (rules.insert other entry) explicit fallback = resolve rules explicit fallback := by
  refine ⟨fun r s h => RuleSet.resolve_congr h explicit fallback, ?_, ?_, ?_, ?_⟩
  · intro rules
    exact RuleSet.resolve_congr (fun name _ => rules.payload?_filterValues_isOff name) _ _
  · intro rules change hchange
    have hoff : ∀ name (entry : RuleEntry),
        RuleEntry.isOff { entry with severity := change name entry.severity } = entry.isOff := by
      intro name entry
      simp [RuleEntry.isOff, hchange]
    refine RuleSet.resolve_congr (fun name _ => ?_) _ _
    exact rules.payload?_mapEntries hoff (fun _ _ => rfl) name
  · intro rules change
    refine RuleSet.resolve_congr (fun name _ => ?_) _ _
    exact rules.payload?_mapEntries (fun name entry => entry.isOff_changeLater (change name))
      (fun name entry => entry.head?_options_changeLater (change name)) name
  · intro rules other entry hother
    refine RuleSet.resolve_congr (fun name hname => ?_) _ _
    have hne : name ≠ other := fun e => hother (e ▸ hname)
    exact rules.payload?_insert_of_ne hne entry

/-- A rule set with a rule about long lines alone, which allows 80 columns. -/
def aboutLines (severity : Severity) (later : List Json) : RuleSet :=
  SortedMap.empty.insert RuleName.maxLen ⟨severity, .number (.natural 80) :: later⟩

/-- A rule that is off, another later option, swapped severities and a rule that nobody inspects
make no difference. -/
theorem resolve_aboutLines :
    resolve ((aboutLines .warn [.null]).insert RuleName.semi ⟨.off, [.string "always"]⟩) .empty
        .empty = resolve (aboutLines .warn []) .empty .empty ∧
      resolve ((aboutLines .warn []).mapEntries fun _ entry =>
          { entry with severity := entry.severity.swapped }) .empty .empty =
        resolve (aboutLines .warn []) .empty .empty ∧
      resolve ((aboutLines .warn []).insert "no-var" ⟨.error, []⟩) .empty .empty =
        resolve (aboutLines .warn []) .empty .empty := by
  obtain ⟨hpayloads, -, hseverity, -, hother⟩ := resolve_payloads .empty .empty
  refine ⟨hpayloads _ _ ?_, hseverity _ (fun _ => Severity.swapped) ?_, hother _ _ _ (by decide)⟩
  · intro name hname
    simp only [RuleName.inspected, List.mem_cons, List.not_mem_nil, or_false] at hname
    rcases hname with rfl | rfl | rfl | rfl | rfl | rfl | rfl | rfl | rfl <;> rfl
  · intro name severity
    cases severity <;> decide

end FormatOptions

end Concord
