import Concord.Proofs.Lint.Merge

/-!
# What a cascade of configurations comes to

`Cascade` describes the configuration that layers come to without merging them: it says of every
setting which layer decides it. Merging layers one after another gives that configuration and no
other (`LintConfig.mergeAll_cascade`). The severity and the options of a rule are decided apart, so
a rule that is switched off and on again by bare severities has its options back.
-/

namespace Concord

/-- A configuration that holds what layers, lowest first, come to. -/
structure Cascade (layers : List LintConfig) (result : LintConfig) : Prop where
  /-- The search ends here if some layer says so. -/
  root : result.root = true ↔ ∃ layer ∈ layers, layer.root = true
  /-- A rule has the severity of the last layer that names it and the options of the last layer
  that gives it any. -/
  rules : ∀ name, result.rules.find? name =
    RuleEntry.cascade? (layers.filterMap (·.rules.find? name))
  /-- The last layer that has a key decides its whole value. -/
  settings : ∀ key, result.settings.find? key =
    (layers.filterMap (·.settings.find? key)).getLast?
  /-- Keys stand in the order in which layers first mention them. -/
  settingsOrder : result.settings.keys = (layers.flatMap (·.settings.keys)).eraseDups
  /-- The last layer that declares a global decides its access. -/
  globals : ∀ name, result.globals.find? name =
    (layers.filterMap (·.globals.find? name)).getLast?
  /-- The last layer that mentions an environment decides whether it is on. -/
  env : ∀ name, result.env.find? name = (layers.filterMap (·.env.find? name)).getLast?
  /-- Every plugin is there once, in the order in which layers first mention them. -/
  plugins : result.plugins = (layers.flatMap (·.plugins)).eraseDups
  /-- The last layer that chooses a parser decides. -/
  parser : result.parser = (layers.filterMap (·.parser)).getLast?
  /-- The last layer that has a key decides its whole value. -/
  parserOptions : ∀ key, result.parserOptions.find? key =
    (layers.filterMap (·.parserOptions.find? key)).getLast?
  /-- Keys stand in the order in which layers first mention them. -/
  parserOptionsOrder :
    result.parserOptions.keys = (layers.flatMap (·.parserOptions.keys)).eraseDups
  /-- The last layer that chooses extensions decides, even if it chooses none. -/
  extensions : result.extensions = (layers.filterMap (·.extensions)).getLast?
  /-- All override blocks are kept in order. -/
  overrides : result.overrides = layers.flatMap (·.overrides)

/-- At most one configuration is what given layers come to. -/
theorem Cascade.unique {layers : List LintConfig} {a b : LintConfig} (ha : Cascade layers a)
    (hb : Cascade layers b) : a = b := by
  have hroot : a.root = b.root := by rw [Bool.eq_iff_iff, ha.root, hb.root]
  have hrules : a.rules = b.rules :=
    SortedMap.ext_find? fun name => by rw [ha.rules, hb.rules]
  have hsettings : a.settings = b.settings :=
    OrderedMap.ext_keys_find? (by rw [ha.settingsOrder, hb.settingsOrder])
      fun key => by rw [ha.settings, hb.settings]
  have hglobals : a.globals = b.globals :=
    SortedMap.ext_find? fun name => by rw [ha.globals, hb.globals]
  have henv : a.env = b.env := SortedMap.ext_find? fun name => by rw [ha.env, hb.env]
  have hplugins : a.plugins = b.plugins := by rw [ha.plugins, hb.plugins]
  have hparser : a.parser = b.parser := by rw [ha.parser, hb.parser]
  have hoptions : a.parserOptions = b.parserOptions :=
    OrderedMap.ext_keys_find? (by rw [ha.parserOptionsOrder, hb.parserOptionsOrder])
      fun key => by rw [ha.parserOptions, hb.parserOptions]
  have hextensions : a.extensions = b.extensions := by rw [ha.extensions, hb.extensions]
  have hoverrides : a.overrides = b.overrides := by rw [ha.overrides, hb.overrides]
  obtain ⟨⟨_, _, _, _, _, _, _, _, _⟩, _⟩ := a
  obtain ⟨⟨_, _, _, _, _, _, _, _, _⟩, _⟩ := b
  simp only at hroot hrules hsettings hglobals henv hplugins hparser hoptions hextensions hoverrides
  subst hroot hrules hsettings hglobals henv hplugins hparser hoptions hextensions hoverrides
  rfl

namespace LintConfig

/-! ## The parts of merged layers -/

/-- A cascade calls itself the root if one of its layers does. -/
theorem root_foldl_merge (layers : List LintConfig) (start : LintConfig) :
    (layers.foldl merge start).root = true ↔
      start.root = true ∨ ∃ layer ∈ layers, layer.root = true := by
  induction layers generalizing start with
  | nil => simp
  | cons layer rest ih =>
    have hstep : (start.merge layer).root = (start.root || layer.root) := rfl
    simp [ih, hstep, or_assoc]

/-- The blocks of all layers stand one after another. -/
theorem overrides_foldl_merge (layers : List LintConfig) (start : LintConfig) :
    (layers.foldl merge start).overrides = start.overrides ++ layers.flatMap (·.overrides) := by
  induction layers generalizing start with
  | nil => simp
  | cons layer rest ih =>
    have hstep : (start.merge layer).overrides = start.overrides ++ layer.overrides := rfl
    rw [List.foldl_cons, ih, hstep, List.flatMap_cons, List.append_assoc]

/-- Of a setting that the upper layer replaces, the last layer that has it decides. -/
theorem mergeAll_last_value {β : Type} (value : LintConfig → Option β)
    (hmerge : ∀ lower upper, value (merge lower upper) = (value upper).or (value lower))
    (hdefault : value {} = none) (layers : List LintConfig) :
    value (mergeAll layers) = (layers.filterMap value).getLast? := by
  rw [mergeAll, foldl_last_value merge value hmerge, hdefault, Option.or_none]

/-- Of names that are collected, every one is there once, where it first appears. -/
theorem mergeAll_collect (names : LintConfig → List String)
    (hmerge : ∀ lower upper, names (merge lower upper) = collect (names lower) (names upper))
    (hdefault : names {} = []) (layers : List LintConfig) :
    names (mergeAll layers) = (layers.flatMap names).eraseDups := by
  rw [mergeAll, foldl_collect merge names hmerge, hdefault, collect_nil_left]

/-- Layers merged one after another come to what `Cascade` says. -/
theorem cascade_mergeAll (layers : List LintConfig) : Cascade layers (mergeAll layers) where
  root := by
    rw [mergeAll, root_foldl_merge]
    simp
  rules name := RuleEntry.foldl_cascade merge (·.rules.find? name)
    (fun _ _ => LintSettings.find?_rules_merge _ _ name) layers {} [] rfl
  settings key := mergeAll_last_value (·.settings.find? key)
    (fun _ _ => OrderedMap.find?_overlay _ _ key) rfl layers
  settingsOrder := mergeAll_collect (·.settings.keys)
    (fun _ _ => OrderedMap.keys_overlay _ _) rfl layers
  globals name := mergeAll_last_value (·.globals.find? name)
    (fun _ _ => SortedMap.find?_overlay _ _ name) rfl layers
  env name := mergeAll_last_value (·.env.find? name)
    (fun _ _ => SortedMap.find?_overlay _ _ name) rfl layers
  plugins := mergeAll_collect (·.plugins) (fun _ _ => rfl) rfl layers
  parser := mergeAll_last_value (·.parser) (fun _ _ => rfl) rfl layers
  parserOptions key := mergeAll_last_value (·.parserOptions.find? key)
    (fun _ _ => OrderedMap.find?_overlay _ _ key) rfl layers
  parserOptionsOrder := mergeAll_collect (·.parserOptions.keys)
    (fun _ _ => OrderedMap.keys_overlay _ _) rfl layers
  extensions := mergeAll_last_value (·.extensions) (fun _ _ => rfl) rfl layers
  overrides := overrides_foldl_merge layers {}

/-- Layers merged one after another come to what `Cascade` says, and nothing else is what they come
to. In particular a rule has its options back when all that follows in the cascade, the layers that
switch it off and on again included, are bare severities. -/
theorem mergeAll_cascade (layers : List LintConfig) :
    (∀ result, result = mergeAll layers ↔ Cascade layers result) ∧
      ∀ name below entry bare last,
        layers.filterMap (·.rules.find? name) = below ++ entry :: (bare ++ [last]) →
        entry.options ≠ [] → (∀ other ∈ bare ++ [last], other.options = []) →
        (mergeAll layers).rules.find? name = some ⟨last.severity, entry.options⟩ := by
  refine ⟨fun result => ⟨?_, fun h => h.unique (cascade_mergeAll layers)⟩, ?_⟩
  · rintro rfl
    exact cascade_mergeAll layers
  · intro name below entry bare last hentries hentry hbare
    rw [(cascade_mergeAll layers).rules, hentries]
    exact RuleEntry.cascade?_restored below hentry hbare

/-- A configuration of one rule and nothing else. -/
def ofRule (name : String) (entry : RuleEntry) : LintConfig :=
  { rules := SortedMap.empty.insert name entry }

/-- A rule about quotes that is switched off and on again wants single quotes as before. -/
theorem find?_mergeAll_quotes :
    (mergeAll [ofRule "quotes" ⟨.error, [.string "single"]⟩, ofRule "quotes" .off,
      ofRule "quotes" ⟨.warn, []⟩]).rules.find? "quotes" = some ⟨.warn, [.string "single"]⟩ :=
  (mergeAll_cascade _).2 "quotes" [] ⟨.error, [.string "single"]⟩ [.off] ⟨.warn, []⟩ rfl
    (by simp) (by simp [RuleEntry.off])

end LintConfig

end Concord
