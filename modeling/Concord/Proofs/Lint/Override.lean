import Concord.Plan.Request
import Concord.Proofs.Lint.Cascade

/-!
# Override blocks as layers

Flattening merges each block with the blocks within it before it is merged into what lies around it.
Since merging is associative, that is the same as merging the blocks that apply, outer ones before
those within, one after another onto the settings (`flattenOnto_eq_foldl`). Of several layers, all
settings come before all blocks, so that a block of an outer layer counts for more than anything
that an inner layer says outside its blocks.
-/

namespace Concord

namespace LintConfig

/-- The override blocks that apply to a file, each without the blocks within, in the order in which
they count. -/
def blocks (c : LintConfig) (file : Path) : List LintConfig :=
  (c.applicable file).map LintSettings.alone

end LintConfig

/-! ## Flattening one configuration -/

open LintConfig in
mutual

/-- Merging a flattened block merges the block and those within it that apply, one by one. -/
theorem merge_flatten (file : Path) : ∀ (block : OverrideBlock) (config : LintConfig),
    config.merge (block.flatten file) =
      ((block.applicable file).map LintSettings.alone).foldl merge config
  | .mk scope settings within, config => by
    have hwithin := flattenOnto_eq_foldl file within settings.alone
    have hflat : (OverrideBlock.mk scope settings within).flatten file =
        flattenOnto file within settings.alone := by
      rw [OverrideBlock.flatten]
      rfl
    rw [hflat, hwithin, ← foldl_merge, OverrideBlock.applicable, List.map_cons, List.foldl_cons]

/-- Merging a list of blocks merges those that apply, and those within them, one by one. -/
theorem flattenOnto_eq_foldl (file : Path) : ∀ (blocks : List OverrideBlock) (config : LintConfig),
    flattenOnto file blocks config =
      ((applicableAll file blocks).map LintSettings.alone).foldl merge config
  | [], config => by rw [flattenOnto, applicableAll]; rfl
  | block :: rest, config => by
    have hblock := merge_flatten file block config
    rw [flattenOnto, flattenOnto_eq_foldl file rest, applicableAll, List.map_append,
      List.foldl_append]
    by_cases hcovers : block.scope.covers file
    · rw [if_pos hcovers, if_pos hcovers, hblock]
    · rw [if_neg hcovers, if_neg hcovers, List.map_nil, List.foldl_nil]

end

/-! ## Flattening merged layers -/

/-- The blocks that apply to a file are gathered list by list. -/
theorem applicableAll_append (file : Path) (first second : List OverrideBlock) :
    applicableAll file (first ++ second) =
      applicableAll file first ++ applicableAll file second := by
  induction first with
  | nil => rw [applicableAll]; rfl
  | cons block rest ih =>
    rw [List.cons_append, applicableAll, applicableAll, ih, List.append_assoc]

namespace LintConfig

/-- For a file the blocks that apply to it are merged over the rest, one after another. -/
theorem forFile_some (c : LintConfig) (file : Path) :
    c.forFile (some file) = (c.blocks file).foldl merge c.base :=
  flattenOnto_eq_foldl file c.overrides c.base

/-- The blocks of merged layers are those of all layers in order. -/
theorem blocks_mergeAll (layers : List LintConfig) (file : Path) :
    (mergeAll layers).blocks file = layers.flatMap (·.blocks file) := by
  have hoverrides : (mergeAll layers).overrides = layers.flatMap (·.overrides) :=
    overrides_foldl_merge layers {}
  rw [blocks, applicable, hoverrides]
  clear hoverrides
  induction layers with
  | nil => rw [List.flatMap_nil, applicableAll]; rfl
  | cons layer rest ih =>
    rw [List.flatMap_cons, applicableAll_append, List.map_append, ih, List.flatMap_cons]
    rfl

/-- Merged layers without their blocks are the merged layers without blocks. -/
theorem base_mergeAll (layers : List LintConfig) :
    (mergeAll layers).base = mergeAll (layers.map base) := by
  have hstep : ∀ lower upper : LintConfig, lower.base.merge upper.base = (lower.merge upper).base :=
    fun _ _ => rfl
  rw [mergeAll, mergeAll, List.foldl_map]
  exact (List.foldl_hom base hstep).symm

/-- For a file a cascade is the merged rest of its layers, with the blocks of all layers over that.
-/
theorem forFile_mergeAll (layers : List LintConfig) (file : Path) :
    (mergeAll layers).forFile (some file) =
      (layers.flatMap (·.blocks file)).foldl merge (mergeAll (layers.map base)) := by
  rw [forFile_some, blocks_mergeAll, base_mergeAll]

theorem overrides_of_mem_blocks {c block : LintConfig} {file : Path} (h : block ∈ c.blocks file) :
    block.overrides = [] := by
  obtain ⟨settings, -, rfl⟩ := List.mem_map.1 h
  rfl

/-- The configuration of one file has no override blocks any more. -/
theorem overrides_forFile (c : LintConfig) (file : Option Path) :
    (c.forFile file).overrides = [] := by
  cases file with
  | none => rfl
  | some file =>
    have hblocks : (c.blocks file).flatMap (·.overrides) = [] :=
      List.flatMap_eq_nil_iff.2 fun block hblock => overrides_of_mem_blocks hblock
    rw [forFile_some, overrides_foldl_merge, hblocks]
    rfl

/-- The configuration of one file: of all layers the settings, then of all layers the blocks. -/
theorem forFile_mergeAll_eq_mergeAll (layers : List LintConfig) (file : Path) :
    (mergeAll layers).forFile (some file) =
      mergeAll (layers.map base ++ layers.flatMap (·.blocks file)) := by
  rw [forFile_mergeAll, mergeAll, mergeAll, List.foldl_append]

end LintConfig

/-! ## What a block counts for -/

/-- A layer prevails in a configuration if what it says stands there, unless one of the layers
`later` says otherwise. Nothing else can stand against it. -/
structure Prevails (layer : LintConfig) (later : List LintConfig) (result : LintConfig) : Prop where
  /-- A rule it names has its severity. -/
  severity : ∀ name entry, layer.rules.find? name = some entry →
    (∀ other ∈ later, other.rules.find? name = none) →
    (result.rules.find? name).map (·.severity) = some entry.severity
  /-- A rule that it gives options has its options, even if later layers change the severity. -/
  options : ∀ name entry, layer.rules.find? name = some entry → entry.options ≠ [] →
    (∀ other ∈ later, ∀ above, other.rules.find? name = some above → above.options = []) →
    (result.rules.find? name).map (·.options) = some entry.options
  /-- A shared value has its value. -/
  settings : ∀ key value, layer.settings.find? key = some value →
    (∀ other ∈ later, other.settings.find? key = none) → result.settings.find? key = some value
  /-- A global has its access. -/
  globals : ∀ name access, layer.globals.find? name = some access →
    (∀ other ∈ later, other.globals.find? name = none) → result.globals.find? name = some access
  /-- An environment is on or off as it says. -/
  env : ∀ name on, layer.env.find? name = some on →
    (∀ other ∈ later, other.env.find? name = none) → result.env.find? name = some on
  /-- Its parser is chosen. -/
  parser : ∀ name, layer.parser = some name → (∀ other ∈ later, other.parser = none) →
    result.parser = some name
  /-- An option of the parser has its value. -/
  parserOptions : ∀ key value, layer.parserOptions.find? key = some value →
    (∀ other ∈ later, other.parserOptions.find? key = none) →
    result.parserOptions.find? key = some value
  /-- Its extensions are chosen. -/
  extensions : ∀ names, layer.extensions = some names →
    (∀ other ∈ later, other.extensions = none) → result.extensions = some names

/-- Of what layers come to, every layer prevails over all that lie below it. -/
theorem Cascade.prevails {below later : List LintConfig} {layer result : LintConfig}
    (h : Cascade (below ++ layer :: later) result) : Prevails layer later result where
  severity name entry hentry hlater := by
    have hlast := getLast?_filterMap_of_later (·.rules.find? name) hentry below hlater
    rw [h.rules, RuleEntry.cascade?, hlast]
    rfl
  options name entry hentry hoptions hlater := by
    have hbare : ∀ above ∈ later.filterMap (·.rules.find? name), above.options = [] := by
      intro above habove
      obtain ⟨other, hother, hfound⟩ := List.mem_filterMap.1 habove
      exact hlater other hother above hfound
    have hentries : (layer :: later).filterMap (·.rules.find? name) =
        entry :: later.filterMap (·.rules.find? name) := List.filterMap_cons_some hentry
    rw [h.rules, List.filterMap_append, hentries, List.append_cons]
    exact RuleEntry.options_cascade?_append_bare _ hoptions hbare
  settings key value hvalue hlater := by
    rw [h.settings, getLast?_filterMap_of_later (·.settings.find? key) hvalue below hlater]
  globals name access haccess hlater := by
    rw [h.globals, getLast?_filterMap_of_later (·.globals.find? name) haccess below hlater]
  env name on hon hlater := by
    rw [h.env, getLast?_filterMap_of_later (·.env.find? name) hon below hlater]
  parser name hname hlater := by
    rw [h.parser, getLast?_filterMap_of_later (·.parser) hname below hlater]
  parserOptions key value hvalue hlater := by
    rw [h.parserOptions,
      getLast?_filterMap_of_later (·.parserOptions.find? key) hvalue below hlater]
  extensions names hnames hlater := by
    rw [h.extensions, getLast?_filterMap_of_later (·.extensions) hnames below hlater]

/-! ## The configuration in force -/

/-- What a request runs under, where the layers `found` surround its file: all of them and the
request's own configuration merged, for its file. -/
theorem lintInForce_mergeAll (found : List LintConfig) (request : FormatRequest)
    (formatOptions : Option Path → Except LookupFailure FormatOptions) :
    request.lintInForce ⟨fun _ => .ok (.mergeAll found), formatOptions⟩ =
      (LintConfig.mergeAll (found ++ [request.lintConfig])).forFile request.file := by
  unfold FormatRequest.lintInForce LintConfig.mergeAll
  rw [List.foldl_append]
  rfl

namespace LintConfig

/-- The configuration of a file is the configuration without blocks with all blocks that apply
merged onto it, one after another. Of layers, all settings are merged first and then all blocks, so
that a block prevails over the settings of every layer, inner ones included. -/
theorem forFile_eq_foldl_blocks :
    (∀ (c : LintConfig) (file : Path),
      c.forFile (some file) = (c.blocks file).foldl merge c.base) ∧
    (∀ c : LintConfig, c.forFile none = c.base) ∧
    (∀ (c : LintConfig) (file : Option Path), (c.forFile file).overrides = []) ∧
    (∀ (layers : List LintConfig) (file : Path),
      (mergeAll layers).forFile (some file) =
        (layers.flatMap (·.blocks file)).foldl merge (mergeAll (layers.map base))) ∧
    (∀ layers : List LintConfig, (mergeAll layers).forFile none = mergeAll (layers.map base)) ∧
    (∀ (found : List LintConfig) (request : FormatRequest)
        (formatOptions : Option Path → Except LookupFailure FormatOptions),
      request.lintInForce ⟨fun _ => .ok (mergeAll found), formatOptions⟩ =
        (mergeAll (found ++ [request.lintConfig])).forFile request.file) ∧
    ∀ (layers : List LintConfig) (file : Path) (below later : List LintConfig)
        (block : LintConfig), layers.flatMap (·.blocks file) = below ++ block :: later →
      Prevails block later ((mergeAll layers).forFile (some file)) := by
  refine ⟨forFile_some, fun _ => rfl, overrides_forFile, forFile_mergeAll, base_mergeAll,
    lintInForce_mergeAll, ?_⟩
  intro layers file below later block hblocks
  have hcascade := cascade_mergeAll (layers.map base ++ layers.flatMap (·.blocks file))
  rw [← forFile_mergeAll_eq_mergeAll, hblocks, ← List.append_assoc] at hcascade
  exact hcascade.prevails

/-- A configuration that switches a rule off in the files of a scope, and says nothing else. -/
def switchedOff (scope : Scope) (name : String) : LintConfig :=
  { overrides := [.mk scope (ofRule name .off).toLintSettings []] }

/-- A block of an outer layer switches a rule off that an inner layer switches on. -/
theorem find?_forFile_switchedOff :
    let file : Path := ⟨"a.js", []⟩
    let layers := [switchedOff ⟨["*.js"], []⟩ "semi", ofRule "semi" ⟨.error, []⟩]
    layers.flatMap (·.blocks file) = [] ++ ofRule "semi" .off :: [] ∧
      (((mergeAll layers).forFile (some file)).rules.find? "semi").map (·.severity) =
        some .off := by
  have hblocks : [switchedOff ⟨["*.js"], []⟩ "semi", ofRule "semi" ⟨.error, []⟩].flatMap
      (·.blocks ⟨"a.js", []⟩) = [] ++ ofRule "semi" .off :: [] := by rfl
  obtain ⟨-, -, -, -, -, -, hprevails⟩ := forFile_eq_foldl_blocks
  exact ⟨hblocks, (hprevails _ _ _ _ _ hblocks).severity "semi" .off rfl (by simp)⟩

end LintConfig

end Concord
