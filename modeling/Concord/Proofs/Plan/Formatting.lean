import Concord.Plan.Basic
import Concord.Proofs.Derivation.Resolution

/-!
# The formatter options of a plan

The formatter options of a plan have up to six sources: the caller, what is found around the file,
the hint that names the file, the map embedded in the formatter rule, the other rules, and the
fallback. `FormatRequest.formatting_plan` says for every option which of them decides it, and for
the options that pass through also in which order they stand.
-/

namespace Concord.FormatRequest

/-! ## The file hint -/

/-- The hint as an entry, if a file is given. -/
def hintEntries (request : FormatRequest) : List (String × Json) :=
  (request.file.map fun path => (fileOption, Json.string path.text)).toList

/-- The hint is none of the options that rules can drive. -/
theorem get?_fileHint (request : FormatRequest) (key : FormatOption) :
    request.fileHint.get? key = none := by
  unfold fileHint
  cases request.file with
  | none => rfl
  | some path =>
    have hne : fileOption ≠ key.name := by cases key <;> decide
    rw [FormatOptions.get?_set, if_neg hne]
    rfl

/-- The hint about the file passes through and is none of the nine options. -/
theorem extra_fileHint (request : FormatRequest) :
    request.fileHint.extra = OrderedMap.ofList request.hintEntries := by
  unfold fileHint hintEntries
  cases request.file with
  | none => rfl
  | some path =>
    have hpasses : FormatOptions.passes fileOption = true := by decide
    rw [FormatOptions.extra_set, if_pos hpasses]
    rfl

theorem find?_extra_fileHint (request : FormatRequest) (name : String) :
    request.fileHint.extra.find? name = request.hintEntries.lookup name := by
  rw [extra_fileHint, OrderedMap.ofList, OrderedMap.find?_insertAll, OrderedMap.find?_empty,
    Option.or_none]
  unfold hintEntries
  cases request.file <;> rfl

theorem keys_extra_fileHint (request : FormatRequest) :
    request.fileHint.extra.keys = request.hintEntries.map Prod.fst := by
  rw [extra_fileHint, OrderedMap.ofList, OrderedMap.keys_insertAll, OrderedMap.keys_empty]
  unfold hintEntries
  cases request.file <;> rfl

/-! ## The explicit options -/

/-- The formatter options found around the file; none if the look-up fails. -/
def foundOptions (request : FormatRequest) (resolver : Resolver) : FormatOptions :=
  (resolver.formatOptions request.file).toOption.getD .empty

/-- A failed look-up counts as options without any value. -/
theorem orDefault_formatOptions (request : FormatRequest) (resolver : Resolver) :
    orDefault (resolver.formatOptions request.file) = request.foundOptions resolver := by
  unfold foundOptions
  cases resolver.formatOptions request.file <;> rfl

/-- Of the nine options the request's own value counts, and the one that is found if there is none.
-/
theorem get?_explicitOptions (request : FormatRequest) (resolver : Resolver)
    (key : FormatOption) : (request.explicitOptions resolver).get? key =
      (request.options.get? key).or ((request.foundOptions resolver).get? key) := by
  rw [explicitOptions, orDefault_formatOptions, FormatOptions.get?_overlay,
    FormatOptions.get?_overlay, get?_fileHint, Option.or_none]

/-- Of what passes through the hint lies lowest, what is found above it and the request's own on
top. -/
theorem extra_explicitOptions (request : FormatRequest) (resolver : Resolver) :
    (request.explicitOptions resolver).extra =
      (request.fileHint.extra.overlay (request.foundOptions resolver).extra).overlay
        request.options.extra := by
  rw [explicitOptions, orDefault_formatOptions]
  rfl

/-! ## The plan -/

/-- The sources of the formatter options of a plan. An option that rules can drive has the first
value among the caller's, the found one, the one embedded in the formatter rule if it is of use, the
derived one and the fallback; an embedded value of no use stands in nobody's way. An option that
passes through has the value of the caller, of what is found, of the hint or of the embedded map,
whichever comes first, and stands where its name first appears from the embedded map upwards. -/
theorem formatting_plan (request : FormatRequest) (resolver : Resolver) (catalog : Catalog) :
    let rules := (request.lintInForce resolver).rules
    let found := request.foundOptions resolver
    let formatting := (request.plan resolver catalog).formatting
    (∀ key, formatting.get? key =
      firstPresent [request.options.get? key, found.get? key,
        (rules.bundle.find? key.name).bind key.read?, (key.derive rules).value?,
        request.fallback.get? key]) ∧
    (∀ key, (rules.bundle.find? key.name).bind key.read? = none → formatting.get? key =
      firstPresent [request.options.get? key, found.get? key, (key.derive rules).value?,
        request.fallback.get? key]) ∧
    (∀ name, formatting.extra.find? name =
      firstPresent [request.options.extra.find? name, found.extra.find? name,
        request.hintEntries.lookup name,
        if FormatOptions.passes name then rules.bundle.find? name else none]) ∧
    formatting.extra.keys =
      (rules.bundle.keys.filter FormatOptions.passes ++ request.hintEntries.map Prod.fst ++
        found.extra.keys ++ request.options.extra.keys).eraseDups := by
  intro rules found formatting
  have hget : ∀ key, formatting.get? key =
      firstPresent [request.options.get? key, found.get? key,
        (rules.bundle.find? key.name).bind key.read?, (key.derive rules).value?,
        request.fallback.get? key] := by
    intro key
    have hresolve : formatting.get? key = _ := FormatOptions.get?_resolve rules _ _ key
    rw [hresolve, get?_explicitOptions]
    simp only [firstPresent_cons, Option.or_assoc, found]
  have hextra : formatting.extra = (FormatOptions.ofMap rules.bundle).extra.overlay
      ((request.fileHint.extra.overlay found.extra).overlay request.options.extra) := by
    rw [← extra_explicitOptions]
    exact FormatOptions.extra_resolve rules _ _
  refine ⟨hget, ?_, ?_, ?_⟩
  · intro key hembedded
    rw [hget, hembedded]
    simp only [firstPresent_cons, Option.none_or]
  · intro name
    rw [hextra]
    simp only [OrderedMap.find?_overlay, find?_extra_fileHint, FormatOptions.find?_extra_ofMap,
      firstPresent_cons, firstPresent_nil, Option.or_none, Option.or_assoc]
  · have hdistinct := eraseDups_of_nodup (FormatOptions.nodup_filter_passes rules.bundle)
    rw [hextra]
    simp only [OrderedMap.keys_overlay, FormatOptions.keys_extra_ofMap, keys_extra_fileHint,
      collect_assoc]
    rw [← hdistinct, collect_eraseDups, collect_eraseDups, collect_eraseDups, hdistinct]

/-- A request whose formatter rule embeds a value of no use for an option that a rule decides. -/
def withUselessValue : FormatRequest where
  lintConfig :=
    { rules := (SortedMap.empty.insert RuleName.formatter
        ⟨.error, [.object [("semi", .string "yes")]]⟩).insert RuleName.semi
          ⟨.error, [.string "never"]⟩ }

/-- The embedded value of no use leaves the option to the rule. -/
theorem get?_semi_withUselessValue :
    (withUselessValue.plan .nothing .fallback).formatting.get? .semi = some (.flag false) := by
  have hembedded : ((withUselessValue.lintInForce .nothing).rules.bundle.find?
      FormatOption.semi.name).bind FormatOption.semi.read? = none := by rfl
  have hsemi := (formatting_plan withUselessValue .nothing .fallback).2.1 .semi hembedded
  rw [hsemi]
  rfl

end Concord.FormatRequest
