import Concord.Derivation.Resolution
import Concord.Proofs.Format.Options

/-!
# Where the options of a run come from

`get?_resolve` gives the source of each option that rules can drive, `extra_resolve` that of all
others. The options embedded in the formatter rule are read off `RuleSet.bundle`. Resolution only
adds to the explicit options, and it leaves exactly those alone to which no source has anything to
add (`resolve_eq_self_iff`). Its own results are among them.
-/

namespace Concord

/-- The first value that is present among several, highest first. -/
def firstPresent {α : Type} (values : List (Option α)) : Option α := values.findSome? id

@[simp] theorem firstPresent_nil {α : Type} : firstPresent ([] : List (Option α)) = none := rfl

@[simp] theorem firstPresent_cons {α : Type} (value : Option α) (rest : List (Option α)) :
    firstPresent (value :: rest) = value.or (firstPresent rest) := by
  cases value <;> rfl

namespace Derived

variable {α β : Type}

/-- A derived value counts only if it is concrete. -/
theorem value?_eq_some_iff {d : Derived α} {a : α} : d.value? = some a ↔ d = .concrete a := by
  cases d <;> simp [value?]

theorem value?_andThen (d : Derived α) (f : α → Option β) :
    (d.andThen f).value? = d.value?.bind f := by
  cases d with
  | notConfigured => rfl
  | disabled => rfl
  | concrete value => cases h : f value <;> simp [andThen, value?, h]

end Derived

namespace RuleSet

/-- The first option of a rule that is on. -/
def payload? (rules : RuleSet) (name : String) : Option Json :=
  (rules.find? name).bind RuleEntry.payload?

/-- The value read off a rule is a part of its payload. Whether the rule is off or absent, or has
no option, makes no difference. -/
theorem value?_valueOf (rules : RuleSet) (name : String) (part : ValuePart) :
    (rules.valueOf name part).value? = (rules.payload? name).bind part.of? := by
  unfold valueOf payload?
  cases rules.find? name with
  | none => rfl
  | some rule =>
    simp only [Option.bind_some, RuleEntry.payload?]
    cases rule.state with
    | off => rfl
    | bare => rfl
    | valued v => cases h : part.of? v <;> simp [h, Derived.value?]

/-- The map embedded in the formatter rule: its payload, if that is an object, and else the empty
map. -/
def bundle (rules : RuleSet) : OrderedMap Json :=
  match rules.payload? RuleName.formatter with
  | some (.object fields) => .ofList fields
  | _ => .empty

/-- The embedded options are those that the embedded map describes. -/
theorem embedded?_getD (rules : RuleSet) :
    rules.embedded?.getD .empty = FormatOptions.ofMap rules.bundle := by
  have hembedded : rules.embedded? =
      match (rules.valueOf RuleName.formatter .whole).value? with
      | some (.object fields) => some (FormatOptions.ofFields fields)
      | _ => none := by
    unfold embedded?
    cases rules.valueOf RuleName.formatter .whole with
    | notConfigured => rfl
    | disabled => rfl
    | concrete value => cases value <;> rfl
  rw [hembedded, value?_valueOf, bundle]
  cases rules.payload? RuleName.formatter with
  | none => rfl
  | some value => cases value <;> rfl

end RuleSet

namespace FormatOptions

/-! ## Filling up what is not given -/

/-- The value that resolution adds for an option: none if it is given. -/
def added (rules : RuleSet) (given fallback : FormatOptions) (key : FormatOption) :
    Option FormatValue :=
  if given.contains key then none else key.inferred rules fallback

/-- One step of resolution. -/
def fill (rules : RuleSet) (given fallback out : FormatOptions) (key : FormatOption) :
    FormatOptions :=
  match added rules given fallback key with
  | some value => out.insert key value
  | none => out

/-- Filling in one option gives it what is to be added, if anything, and leaves the others alone. -/
theorem get?_fill (rules : RuleSet) (given fallback out : FormatOptions)
    (k key : FormatOption) : (fill rules given fallback out k).get? key =
      if key = k then (added rules given fallback key).or (out.get? key) else out.get? key := by
  unfold fill
  by_cases hk : key = k
  · subst hk
    cases h : added rules given fallback key <;> simp [get?_insert]
  · cases h : added rules given fallback k <;> simp [get?_insert, hk]

/-- Filling in one of the nine options adds nothing to those that pass through. -/
theorem extra_fill (rules : RuleSet) (given fallback out : FormatOptions) (k : FormatOption) :
    (fill rules given fallback out k).extra = out.extra := by
  unfold fill
  cases added rules given fallback k <;> rfl

/-- Filling up several options. -/
theorem get?_foldl_fill (rules : RuleSet) (given fallback : FormatOptions)
    (keys : List FormatOption) (out : FormatOptions) (key : FormatOption) :
    (keys.foldl (fill rules given fallback) out).get? key =
      if key ∈ keys then (added rules given fallback key).or (out.get? key) else out.get? key := by
  induction keys generalizing out with
  | nil => rfl
  | cons k rest ih =>
    rw [List.foldl_cons, ih, get?_fill]
    by_cases hk : key = k
    · -- A key that occurs again is filled up with the same value.
      by_cases hrest : key ∈ rest
      · rw [if_pos hrest, if_pos hk, ← Option.or_assoc, Option.or_self,
          if_pos (List.mem_cons_of_mem _ hrest)]
      · rw [if_neg hrest, if_pos hk, if_pos (hk ▸ List.mem_cons_self)]
    · simp [hk]

theorem extra_foldl_fill (rules : RuleSet) (given fallback : FormatOptions)
    (keys : List FormatOption) (out : FormatOptions) :
    (keys.foldl (fill rules given fallback) out).extra = out.extra := by
  induction keys generalizing out with
  | nil => rfl
  | cons k rest ih => rw [List.foldl_cons, ih, extra_fill]

/-- Options are resolved by filling in the nine one after another over what is given. -/
theorem resolve_eq_foldl_fill (rules : RuleSet) (explicit fallback : FormatOptions) :
    resolve rules explicit fallback =
      FormatOption.all.foldl (fill rules (given rules explicit) fallback)
        (given rules explicit) := by
  dsimp only [resolve]
  congr 1
  funext out key
  unfold fill added
  split <;> rfl

/-- An option is as given, else as embedded in the formatter rule, else as the other rules have it,
else as in the fallback. -/
theorem get?_resolve (rules : RuleSet) (explicit fallback : FormatOptions) (key : FormatOption) :
    (resolve rules explicit fallback).get? key =
      firstPresent [explicit.get? key, (rules.bundle.find? key.name).bind key.read?,
        (key.derive rules).value?, fallback.get? key] := by
  have hgiven : (given rules explicit).get? key =
      (explicit.get? key).or ((rules.bundle.find? key.name).bind key.read?) := by
    rw [given, get?_overlay, RuleSet.embedded?_getD, get?_ofMap]
  have hadded : (added rules (given rules explicit) fallback key).or
      ((given rules explicit).get? key) =
        ((given rules explicit).get? key).or (key.inferred rules fallback) := by
    unfold added contains get?
    cases (given rules explicit).typed key <;> simp
  rw [resolve_eq_foldl_fill, get?_foldl_fill, if_pos (FormatOption.mem_all key), hadded, hgiven]
  simp [FormatOption.inferred, Option.or_assoc]

/-- What passes through is embedded or given. -/
theorem extra_resolve (rules : RuleSet) (explicit fallback : FormatOptions) :
    (resolve rules explicit fallback).extra =
      (ofMap rules.bundle).extra.overlay explicit.extra := by
  rw [resolve_eq_foldl_fill, extra_foldl_fill, given, RuleSet.embedded?_getD]
  rfl

/-! ## Resolving again -/

/-- The names that pass through on the way from the embedded map, in order. -/
def bundleNames (rules : RuleSet) : List String := rules.bundle.keys.filter passes

/-- Options to which no source has anything to add. -/
structure Settled (rules : RuleSet) (fallback o : FormatOptions) : Prop where
  /-- An option without a value has none in any source. -/
  typed : ∀ key, o.get? key = none →
    firstPresent [(rules.bundle.find? key.name).bind key.read?, (key.derive rules).value?,
      fallback.get? key] = none
  /-- What the embedded map lets pass comes first, in the order of that map. -/
  extra : bundleNames rules <+: o.extra.keys

/-- The names that pass through are those of the bundle, followed by those that only the caller has.
-/
theorem keys_extra_resolve (rules : RuleSet) (explicit fallback : FormatOptions) :
    (resolve rules explicit fallback).extra.keys =
      (bundleNames rules ++ explicit.extra.keys).eraseDups := by
  rw [extra_resolve, OrderedMap.keys_overlay, keys_extra_ofMap]
  exact collect_of_nodup (nodup_filter_passes rules.bundle) _

/-- Of a name that passes through the caller's value counts, and the bundle's if there is none. -/
theorem find?_extra_resolve (rules : RuleSet) (explicit fallback : FormatOptions) (name : String) :
    (resolve rules explicit fallback).extra.find? name =
      (explicit.extra.find? name).or (if passes name then rules.bundle.find? name else none) := by
  rw [extra_resolve, OrderedMap.find?_overlay, find?_extra_ofMap]

/-- Resolution leaves nothing to add. -/
theorem settled_resolve (rules : RuleSet) (explicit fallback : FormatOptions) :
    Settled rules fallback (resolve rules explicit fallback) where
  typed key hnone := by
    rw [get?_resolve, firstPresent_cons, Option.or_eq_none_iff] at hnone
    exact hnone.2
  extra := by
    have hnodup : (bundleNames rules).Nodup := nodup_filter_passes rules.bundle
    rw [keys_extra_resolve, List.eraseDups_append, eraseDups_of_nodup hnodup]
    exact List.prefix_append _ _

/-- Where nothing is left to add, resolution changes neither a value nor the order. -/
theorem Settled.resolve_eq {rules : RuleSet} {fallback o : FormatOptions}
    (h : Settled rules fallback o) : resolve rules o fallback = o := by
  refine ext_get? (fun key => ?_) (OrderedMap.ext_keys_find? ?_ fun name => ?_)
  · rw [get?_resolve, firstPresent_cons]
    cases hkey : o.get? key with
    | none => rw [h.typed key hkey, Option.or_none]
    | some value => rfl
  · obtain ⟨more, hmore⟩ := h.extra
    have hnodup : (bundleNames rules ++ more).Nodup := hmore ▸ o.extra.nodup
    rw [keys_extra_resolve, ← hmore, ← collect_of_nodup (hnodup.of_append_left), collect_append,
      collect_self, collect_of_nodup hnodup.of_append_left, eraseDups_of_nodup hnodup]
  · rw [find?_extra_resolve]
    cases hname : o.extra.find? name with
    | some value => rfl
    | none =>
      -- A name that the embedded map lets pass would be there.
      have habsent : name ∉ bundleNames rules := fun hin =>
        lookup_eq_none_iff_notMem.1 hname (h.extra.subset hin)
      rw [Option.none_or]
      split
      · next hpasses =>
        exact lookup_eq_none_iff_notMem.2 fun hkey => habsent (List.mem_filter.2 ⟨hkey, hpasses⟩)
      · rfl

/-- Options are left as they are exactly if nothing is left to be added to them. -/
theorem resolve_eq_self_iff {rules : RuleSet} {fallback o : FormatOptions} :
    resolve rules o fallback = o ↔ Settled rules fallback o := by
  refine ⟨fun h => ?_, Settled.resolve_eq⟩
  have hsettled := settled_resolve rules o fallback
  rwa [h] at hsettled

/-- Options that were resolved resolve to themselves, with what passes through in the same order. In
general exactly those options resolve to themselves to which no source has anything to add. Whatever
the rules and the fallback say, each explicit option keeps its value. -/
theorem resolve_resolve :
    (∀ (rules : RuleSet) (explicit fallback : FormatOptions),
      resolve rules (resolve rules explicit fallback) fallback =
        resolve rules explicit fallback) ∧
    (∀ (rules : RuleSet) (fallback o : FormatOptions),
      resolve rules o fallback = o ↔ Settled rules fallback o) ∧
    (∀ (rules : RuleSet) (explicit fallback : FormatOptions) (key : FormatOption)
        (value : FormatValue), explicit.get? key = some value →
      (resolve rules explicit fallback).get? key = some value) ∧
    ∀ (rules : RuleSet) (explicit fallback : FormatOptions) (name : String) (value : Json),
      explicit.extra.find? name = some value →
      (resolve rules explicit fallback).extra.find? name = some value := by
  refine ⟨?_, fun _ _ _ => resolve_eq_self_iff, ?_, ?_⟩
  · intro rules explicit fallback
    exact (settled_resolve rules explicit fallback).resolve_eq
  · intro rules explicit fallback key value hvalue
    rw [get?_resolve, firstPresent_cons, hvalue, Option.some_or]
  · intro rules explicit fallback name value hvalue
    rw [find?_extra_resolve, hvalue, Option.some_or]

/-- Rules that limit lines and that embed an option of the formatter under a name of its own. -/
def limitingRules : RuleSet :=
  (SortedMap.empty.insert RuleName.maxLen ⟨.error, [.number (.natural 80)]⟩).insert
    RuleName.formatter ⟨.error, [.object [("endOfLine", .string "lf")]]⟩

/-- A caller's own width and line ends keep their values and resolve to themselves. -/
theorem resolve_limitingRules :
    let explicit : FormatOptions :=
      (empty.insert .printWidth (.width 40)).set "endOfLine" (.string "crlf")
    let out := resolve limitingRules explicit empty
    explicit.get? .printWidth = some (.width 40) ∧ out.get? .printWidth = some (.width 40) ∧
      explicit.extra.find? "endOfLine" = some (.string "crlf") ∧
      out.extra.find? "endOfLine" = some (.string "crlf") ∧
      resolve limitingRules out empty = out := by
  intro explicit out
  obtain ⟨hagain, -, htyped, hextra⟩ := resolve_resolve
  have hwidth : explicit.get? .printWidth = some (.width 40) := rfl
  have hends : explicit.extra.find? "endOfLine" = some (.string "crlf") := rfl
  exact ⟨hwidth, htyped limitingRules explicit empty _ _ hwidth, hends,
    hextra limitingRules explicit empty _ _ hends, hagain limitingRules explicit empty⟩

end FormatOptions

end Concord
