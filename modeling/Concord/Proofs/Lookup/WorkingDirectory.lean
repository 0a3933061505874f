import Concord.Proofs.Lookup.Rules

/-!
# The working directory read twice

A path that starts with a dot leads the search for linter configuration through the working
directory twice, once as the dot and once as the empty path above it, and the configuration there is
a layer both times. The merged configuration then has every override block of that layer twice, and
still comes to the same for every file (`LintConfig.forFile_mergeAll_twice`): merging is associative,
and settings that are merged onto themselves stay what they are.
-/

namespace Concord

namespace LintConfig

/-! ## Layers that stand twice -/

/-- Without override blocks a stretch of layers that stands twice counts as if it stood once. -/
theorem foldl_merge_twice {layers : List LintConfig}
    (hlayers : ∀ layer ∈ layers, layer.overrides = []) (below above : List LintConfig)
    (start : LintConfig) :
    (below ++ (layers ++ layers) ++ above).foldl merge start =
      (below ++ layers ++ above).foldl merge start := by
  have hoverrides : (mergeAll layers).overrides = [] := by
    rw [(cascade_mergeAll layers).overrides]
    exact List.flatMap_eq_nil_iff.2 hlayers
  have htwice : ∀ c : LintConfig, (layers ++ layers).foldl merge c = layers.foldl merge c := by
    intro c
    calc (layers ++ layers).foldl merge c
        = (c.merge (mergeAll layers)).merge (mergeAll layers) := by
          rw [List.foldl_append, foldl_merge_eq_merge, foldl_merge_eq_merge]
      _ = c.merge ((mergeAll layers).merge (mergeAll layers)) := merge_assoc ..
      _ = layers.foldl merge c := by rw [merge_self hoverrides, foldl_merge_eq_merge]
  simp only [List.foldl_append] at htwice ⊢
  rw [htwice]

/-- Whatever lies below and above, a stretch of layers that stands twice comes to the same for every
file as if it stood once. -/
theorem forFile_mergeAll_twice (below layers above : List LintConfig) (file : Option Path) :
    (mergeAll (below ++ (layers ++ layers) ++ above)).forFile file =
      (mergeAll (below ++ layers ++ above)).forFile file := by
  have hbase : mergeAll ((below ++ (layers ++ layers) ++ above).map base) =
      mergeAll ((below ++ layers ++ above).map base) := by
    have hnone : ∀ layer ∈ layers.map base, layer.overrides = [] := by
      intro layer hlayer
      obtain ⟨whole, -, rfl⟩ := List.mem_map.1 hlayer
      rfl
    simp only [List.map_append]
    exact foldl_merge_twice hnone _ _ {}
  cases file with
  | none =>
    have hforget : ∀ c : LintConfig, c.forFile none = c.base := fun _ => rfl
    rw [hforget, hforget, base_mergeAll, base_mergeAll, hbase]
  | some file =>
    -- The blocks are merged after all settings, so that the stretch stands twice in two places.
    have hnone : ∀ block ∈ layers.flatMap (·.blocks file), block.overrides = [] := by
      intro block hblock
      obtain ⟨layer, -, hlayer⟩ := List.mem_flatMap.1 hblock
      exact overrides_of_mem_blocks hlayer
    rw [forFile_mergeAll, forFile_mergeAll, hbase]
    simp only [List.flatMap_append]
    exact foldl_merge_twice hnone _ _ _

/-- The blocks of a longer cascade are those of its two parts. -/
theorem overrides_mergeAll_append (first second : List LintConfig) :
    (mergeAll (first ++ second)).overrides =
      (mergeAll first).overrides ++ (mergeAll second).overrides := by
  rw [(cascade_mergeAll _).overrides, (cascade_mergeAll _).overrides,
    (cascade_mergeAll _).overrides, List.flatMap_append]

end LintConfig

/-! ## Paths that start with a dot -/

namespace Path

/-- Whether a path is the dot, up to segments that leave one where one is. -/
def IsDot (p : Path) : Prop := p.first = "." ∧ ∀ segment ∈ p.rest, isVoid segment = true

theorem IsDot.components {p : Path} (h : p.IsDot) : p.components = [.current] := by
  unfold Path.components
  rw [firstComponent?_of_dot h.1, filterMap_component?_eq_nil h.2]
  rfl

/-- A path that starts with a dot is the dot itself, or there is such a path above it. -/
theorem parent?_of_dot {p : Path} (h : p.first = ".") :
    (p.IsDot ∧ p.parent? = some ⟨"", []⟩) ∨ ∃ q, p.parent? = some q ∧ q.first = "." := by
  unfold parent?
  cases hdropped : p.rest.reverse.dropWhile isVoid with
  | nil =>
    left
    rw [List.dropWhile_eq_nil_iff] at hdropped
    have hvoid : ∀ segment ∈ p.rest, isVoid segment = true := fun segment hsegment =>
      hdropped segment (List.mem_reverse.2 hsegment)
    exact ⟨⟨h, hvoid⟩, by simp [h]⟩
  | cons segment above =>
    right
    exact ⟨⟨p.first, (above.dropWhile isVoid).reverse⟩, by simp [h], h⟩

/-- Above a path that starts with a dot come at last the dot and the empty path. -/
theorem ancestors_of_dot {p : Path} (h : p.first = ".") :
    ∃ inner here, here.IsDot ∧ p.ancestors = inner ++ [here, ⟨"", []⟩] := by
  induction p using parent_induction with
  | h p ih =>
    rw [ancestors_eq]
    rcases parent?_of_dot h with ⟨hdot, hparent⟩ | ⟨q, hparent, hq⟩
    · exact ⟨[], p, hdot, by rw [hparent]; rfl⟩
    · obtain ⟨inner, here, hdot, hinner⟩ := ih q hparent hq
      exact ⟨p :: inner, here, hdot, by rw [hparent, Option.elim_some, hinner]; rfl⟩

end Path

/-! ## What lies in the working directory -/

namespace Disk

variable {d : Disk} {here : Path}

/-- The dot and the empty path have the same entries. -/
theorem sameEntries_of_dot (d : Disk) (h : here.IsDot) : d.SameEntries here ⟨"", []⟩ := by
  intro name hname
  have hmoves : here.moves = Path.moves ⟨"", []⟩ := by
    rw [Path.moves_eq, h.components]
    rfl
  have horigin : here.origin d.here = Path.origin d.here ⟨"", []⟩ := by
    have hrelative : here.isAbsolute = false := by simp [Path.isAbsolute, h.1]
    rw [Path.origin, hrelative]
    rfl
  rw [locate_entry d here hname, locate_entry d _ hname, hmoves, horigin]

/-- After the dot, the empty path adds the layer that is there already, if it adds anything. -/
theorem lintLayers_dot_empty (d : Disk) (h : here.IsDot) :
    d.lintLayers [here, ⟨"", []⟩] = d.lintLayers [here] ∨
      ∃ config, d.lintLayers [here] = .ok [config] ∧
        d.lintLayers [here, ⟨"", []⟩] = .ok [config, config] := by
  have hsame : d.lintLayer? here = d.lintLayer? ⟨"", []⟩ :=
    lintLayer?_congr (d.sameEntries_of_dot h)
  cases hfirst : d.firstFile? lintFileNames here with
  | none =>
    left
    rw [lintLayer?_of_none hfirst] at hsame
    have hempty := lintLayer?_eq_none_iff.1 hsame.symm
    rw [lintLayers_cons_none _ hfirst, lintLayers_cons_none _ hfirst,
      lintLayers_cons_none _ hempty]
  | some path =>
    cases hload : d.loadLintConfig path with
    | error failure =>
      left
      rw [lintLayers_cons_error _ hfirst hload, lintLayers_cons_error _ hfirst hload]
    | ok config =>
      rw [lintLayer?_eq_some_some_iff.2 ⟨path, hfirst, hload⟩] at hsame
      obtain ⟨other, hempty, hagain⟩ := lintLayer?_eq_some_some_iff.1 hsame.symm
      have hnil : d.lintLayers [] = .ok [] := rfl
      rw [lintLayers_cons_some _ hfirst hload, lintLayers_cons_some _ hfirst hload,
        lintLayers_cons_some _ hempty hagain, hnil]
      cases hroot : config.root with
      | true =>
        left
        rfl
      | false =>
        right
        exact ⟨config, rfl, rfl⟩

/-- A search either ends within the first directories, or goes on with all layers found in them. -/
theorem lintLayers_append (d : Disk) (inner : List Path) :
    (∃ result, ∀ outer, d.lintLayers (inner ++ outer) = result) ∨
      ∃ layers, ∀ outer, d.lintLayers (inner ++ outer) = (d.lintLayers outer).map (layers ++ ·) := by
  induction inner with
  | nil =>
    right
    refine ⟨[], fun outer => ?_⟩
    rw [List.nil_append]
    cases d.lintLayers outer <;> rfl
  | cons directory rest ih =>
    cases hfirst : d.firstFile? lintFileNames directory with
    | none =>
      simp only [List.cons_append, lintLayers_cons_none _ hfirst]
      exact ih
    | some path =>
      cases hload : d.loadLintConfig path with
      | error failure =>
        left
        exact ⟨.error failure, fun outer => lintLayers_cons_error _ hfirst hload⟩
      | ok config =>
        simp only [List.cons_append, lintLayers_cons_some _ hfirst hload]
        cases config.root with
        | true =>
          left
          exact ⟨.ok [config], fun _ => rfl⟩
        | false =>
          rcases ih with ⟨result, hresult⟩ | ⟨layers, hlayers⟩
          · left
            exact ⟨result.map (config :: ·), fun outer => by simp [hresult]⟩
          · right
            refine ⟨config :: layers, fun outer => ?_⟩
            rw [hlayers]
            cases d.lintLayers outer <;> rfl

/-- Leaving the empty path out after the dot changes the configuration of no file. -/
theorem forFile_lintLayers_dot_empty (d : Disk) (inner : List Path) (h : here.IsDot)
    (file : Option Path) :
    ((d.lintLayers (inner ++ [here, ⟨"", []⟩])).map fun layers =>
        (LintConfig.mergeAll layers.reverse).forFile file) =
      (d.lintLayers (inner ++ [here])).map fun layers =>
        (LintConfig.mergeAll layers.reverse).forFile file := by
  rcases d.lintLayers_append inner with ⟨result, hresult⟩ | ⟨found, hfound⟩
  · rw [hresult, hresult]
  · rw [hfound, hfound]
    rcases d.lintLayers_dot_empty h with hsame | ⟨config, honce, htwice⟩
    · rw [hsame]
    · have hagain := LintConfig.forFile_mergeAll_twice [] [config] found.reverse file
      rw [honce, htwice]
      simpa [Except.map] using hagain

end Disk

namespace LintConfig

/-- A stretch of the cascade that is read twice does no harm, although its override blocks are there
twice. So it is when the search around a path that starts with a dot comes to the working directory
both as the dot and as the empty path. -/
theorem forFile_mergeAll_append_self :
    (∀ (layers : List LintConfig) (file : Option Path),
      (mergeAll (layers ++ layers)).forFile file = (mergeAll layers).forFile file) ∧
    (∀ layers : List LintConfig, (mergeAll (layers ++ layers)).overrides =
      (mergeAll layers).overrides ++ (mergeAll layers).overrides) ∧
    (∀ (below layers above : List LintConfig) (file : Option Path),
      (mergeAll (below ++ (layers ++ layers) ++ above)).forFile file =
        (mergeAll (below ++ layers ++ above)).forFile file) ∧
    ∀ (d : Disk) (base : Path) (start : Option Path), (startDirectory base start).first = "." →
      ∃ inner here, here.components = [.current] ∧
        searchedDirectories base start = inner ++ [here, ⟨"", []⟩] ∧
        ∀ file, (d.lintConfigAround base start).map (·.forFile file) =
          (d.lintLayers (inner ++ [here])).map fun layers =>
            (mergeAll layers.reverse).forFile file := by
  refine ⟨fun layers file => ?_, fun layers => overrides_mergeAll_append layers layers,
    forFile_mergeAll_twice, ?_⟩
  · have htwice := forFile_mergeAll_twice [] layers [] file
    simpa using htwice
  · intro d base start hstart
    obtain ⟨inner, here, hdot, hsearched⟩ := Path.ancestors_of_dot hstart
    refine ⟨inner, here, hdot.components, hsearched, fun file => ?_⟩
    rw [← d.forFile_lintLayers_dot_empty inner hdot file, ← hsearched]
    unfold Disk.lintConfigAround searchedDirectories
    cases d.lintLayers (startDirectory base start).ancestors <;> rfl

/-- A working directory whose configuration has one block, which switches a rule off in scripts. -/
def switchingDisk : Disk where
  tree := .directory [(".eslintrc.json", .file (some
    "\x7b\"overrides\":[\x7b\"files\":[\"*.js\"],\"rules\":\x7b\"semi\":0\x7d\x7d]\x7d"))]
  cwd := []

/-- Around the dot the block is there twice and applies to a script as if it were there once. -/
theorem forFile_switchingDisk :
    let found := switchingDisk.lintConfigAround ⟨".", []⟩ none
    (startDirectory ⟨".", []⟩ none).first = "." ∧
      (found.map (·.overrides.length)).toOption = some 2 ∧
      (found.map (·.forFile (some ⟨"a.js", []⟩))).toOption.bind
        (fun config => (config.rules.find? "semi").map (·.severity)) = some .off := by
  intro found
  obtain ⟨-, -, -, haround⟩ := forFile_mergeAll_append_self
  obtain ⟨inner, here, -, hsearched, hfile⟩ := haround switchingDisk ⟨".", []⟩ none rfl
  have hsplit : [] ++ [⟨".", []⟩, ⟨"", []⟩] = inner ++ [here, ⟨"", []⟩] := hsearched
  obtain ⟨rfl, hhere⟩ := List.append_inj' hsplit rfl
  obtain rfl : ⟨".", []⟩ = here := (List.cons.inj hhere).1
  refine ⟨rfl, by decide +kernel, ?_⟩
  rw [hfile (some ⟨"a.js", []⟩)]
  decide +kernel

end LintConfig

end Concord
