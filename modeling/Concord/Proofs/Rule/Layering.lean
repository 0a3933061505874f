import Concord.Proofs.Map.Sorted
import Concord.Rule.Entry

/-!
# Rule entries in layers

Severity and options of a rule may come from different layers: every entry sets the severity, but
only an entry with options replaces the options. `RuleEntry.cascade?` says what a list of entries
comes to without merging them, and `cascade?_concat` that one more entry, merged onto what there is,
keeps to it. Merging is associative, so entries may be merged in any grouping.
-/

namespace Concord.RuleEntry

/-- The options of the last entry that has any; none if no entry has. -/
def lastOptions (entries : List RuleEntry) : List Json :=
  ((entries.map (·.options)).filter fun options => !options.isEmpty).getLast?.getD []

/-- What the entries of one rule come to, lowest layer first: the severity of the last one with the
options of the last one that has options. -/
def cascade? (entries : List RuleEntry) : Option RuleEntry :=
  entries.getLast?.map fun last => ⟨last.severity, lastOptions entries⟩

/-- The upper entry says how severe the rule is, and has the options if it names any. -/
theorem mergedOnto_eq (upper lower : RuleEntry) :
    upper.mergedOnto lower =
      ⟨upper.severity, if upper.options.isEmpty then lower.options else upper.options⟩ := by
  unfold mergedOnto
  split <;> rfl

/-- Entries may be merged in any grouping. -/
theorem mergedOnto_assoc (upper middle lower : RuleEntry) :
    (upper.mergedOnto middle).mergedOnto lower = upper.mergedOnto (middle.mergedOnto lower) := by
  simp only [mergedOnto_eq]
  cases h : upper.options.isEmpty <;> simp [h]

theorem mergedOnto_self (entry : RuleEntry) : entry.mergedOnto entry = entry := by
  unfold mergedOnto
  split <;> rfl

/-- An entry over the lower one, or alone: its options if it has any, else those below. -/
theorem combined_mergedOnto (lower : Option RuleEntry) (upper : RuleEntry) :
    SortedMap.combined mergedOnto lower upper =
      ⟨upper.severity,
        if upper.options.isEmpty then (lower.map (·.options)).getD [] else upper.options⟩ := by
  cases lower with
  | some base => exact mergedOnto_eq upper base
  | none =>
    obtain ⟨severity, options⟩ := upper
    cases options <;> rfl

/-! ## Entries of one rule, layer after layer -/

/-- The last options are those of the last entry, unless it has none. -/
theorem lastOptions_concat (entries : List RuleEntry) (entry : RuleEntry) :
    lastOptions (entries ++ [entry]) =
      if entry.options.isEmpty then lastOptions entries else entry.options := by
  unfold lastOptions
  cases h : entry.options.isEmpty <;> simp [h]

/-- A cascade of entries keeps the last options that were named. -/
theorem options_cascade? (entries : List RuleEntry) :
    ((cascade? entries).map (·.options)).getD [] = lastOptions entries := by
  cases h : entries.getLast? with
  | none =>
    rw [List.getLast?_eq_none_iff] at h
    subst h
    rfl
  | some last => simp [cascade?, h]

/-- One more entry is merged onto what the entries before it come to. -/
theorem cascade?_concat (entries : List RuleEntry) (entry : RuleEntry) :
    cascade? (entries ++ [entry]) =
      some (SortedMap.combined mergedOnto (cascade? entries) entry) := by
  rw [combined_mergedOnto, options_cascade?, ← lastOptions_concat, cascade?,
    List.getLast?_concat]
  rfl

/-- Bare severities above leave the options as they are. -/
theorem lastOptions_append_bare (entries : List RuleEntry) {bare : List RuleEntry}
    (hbare : ∀ entry ∈ bare, entry.options = []) :
    lastOptions (entries ++ bare) = lastOptions entries := by
  have hnone : (bare.map (·.options)).filter (fun options => !options.isEmpty) = [] := by
    refine List.filter_eq_nil_iff.2 fun options hoptions => ?_
    obtain ⟨entry, hentry, rfl⟩ := List.mem_map.1 hoptions
    simp [hbare entry hentry]
  unfold lastOptions
  rw [List.map_append, List.filter_append, hnone, List.append_nil]

/-- An entry with options below nothing but bare severities keeps its options. -/
theorem options_cascade?_append_bare (below : List RuleEntry) {entry : RuleEntry}
    {bare : List RuleEntry} (hentry : entry.options ≠ [])
    (hbare : ∀ other ∈ bare, other.options = []) :
    (cascade? (below ++ [entry] ++ bare)).map (·.options) = some entry.options := by
  have hoptions : lastOptions (below ++ [entry] ++ bare) = entry.options := by
    rw [lastOptions_append_bare _ hbare, lastOptions_concat, if_neg]
    simpa using hentry
  cases h : (below ++ [entry] ++ bare).getLast? with
  | none => simp at h
  | some last =>
    rw [cascade?, h, hoptions]
    rfl

/-- The severity of what entries come to is that of the last one. -/
theorem severity_cascade?_concat (entries : List RuleEntry) (last : RuleEntry) :
    (cascade? (entries ++ [last])).map (·.severity) = some last.severity := by
  rw [cascade?, List.getLast?_concat]
  rfl

/-- An entry with options below nothing but bare severities keeps its options, whichever severity
comes last. -/
theorem cascade?_restored (below : List RuleEntry) {entry last : RuleEntry} {bare : List RuleEntry}
    (hentry : entry.options ≠ []) (hbare : ∀ other ∈ bare ++ [last], other.options = []) :
    cascade? (below ++ entry :: (bare ++ [last])) = some ⟨last.severity, entry.options⟩ := by
  have hoptions := options_cascade?_append_bare below hentry hbare
  have hseverity := severity_cascade?_concat (below ++ [entry] ++ bare) last
  rw [List.append_cons]
  rw [List.append_assoc] at hseverity
  obtain ⟨⟨severity, options⟩, hfound, rfl⟩ := Option.map_eq_some_iff.1 hseverity
  rw [hfound] at hoptions ⊢
  obtain rfl : options = entry.options := Option.some.inj hoptions
  rfl

/-- Where merging layers merges their entries of a rule, many layers have what all their entries
come to. `below` are the entries that the start stands for. -/
theorem foldl_cascade {S : Type} (merge : S → S → S) (find : S → Option RuleEntry)
    (hmerge : ∀ lower upper, find (merge lower upper) =
      ((find upper).map (SortedMap.combined mergedOnto (find lower))).or (find lower))
    (layers : List S) (start : S) (below : List RuleEntry)
    (hstart : find start = cascade? below) :
    find (layers.foldl merge start) = cascade? (below ++ layers.filterMap find) := by
  induction layers generalizing start below with
  | nil => rw [List.filterMap_nil, List.append_nil, ← hstart, List.foldl_nil]
  | cons layer rest ih =>
    rw [List.foldl_cons, List.filterMap_cons]
    cases h : find layer with
    | none =>
      have hstep : find (merge start layer) = cascade? below := by rw [hmerge, h, hstart]; rfl
      exact ih _ below hstep
    | some entry =>
      have hstep : find (merge start layer) = cascade? (below ++ [entry]) := by
        rw [hmerge, h, hstart, cascade?_concat]
        rfl
      rw [ih _ _ hstep, List.append_assoc, List.singleton_append]

end Concord.RuleEntry
