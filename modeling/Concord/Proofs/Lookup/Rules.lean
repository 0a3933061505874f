import Concord.Proofs.Disk.Walk
import Concord.Proofs.Lint.Override
import Concord.Proofs.Lookup.FormatSearch
import Concord.Proofs.Lookup.LintSearch

/-!
# Searches that come to the same

Which rules a search for linter configuration comes to depends on the first hits among its layers,
innermost first, and on nothing else: a layer that comes up again further out changes no rule
(`rulesFrom?_congr`). So two searches through different lists of directories come to the same rules
if they have the same first hits, whatever is looked for (`SameFirst`).
-/

namespace Concord

theorem findSome?_filterMap {α β γ : Type} (f : α → Option β) (g : β → Option γ) (items : List α) :
    (items.filterMap f).findSome? g = items.findSome? fun item => (f item).bind g := by
  rw [← List.head?_filterMap, ← List.head?_filterMap, List.filterMap_filterMap]

/-- Two lists have the same first hit, whatever is looked for. -/
def SameFirst {α : Type} (xs ys : List α) : Prop :=
  ∀ (β : Type) (f : α → Option β), xs.findSome? f = ys.findSome? f

namespace SameFirst

variable {α β : Type} {xs ys xs' ys' : List α}

/-- What is made of each item in turn is found first for the same items. -/
theorem filterMap (h : SameFirst xs ys) (f : α → Option β) :
    SameFirst (xs.filterMap f) (ys.filterMap f) := by
  intro γ g
  rw [findSome?_filterMap, findSome?_filterMap]
  exact h γ _

theorem map (h : SameFirst xs ys) (f : α → β) : SameFirst (xs.map f) (ys.map f) := by
  rw [← List.filterMap_eq_map]
  exact h.filterMap _

theorem flatMap (h : SameFirst xs ys) (f : α → List β) :
    SameFirst (xs.flatMap f) (ys.flatMap f) := by
  intro γ g
  rw [← List.head?_filterMap, ← List.head?_filterMap, List.filterMap_flatMap,
    List.filterMap_flatMap, List.head?_flatMap, List.head?_flatMap]
  exact h γ _

/-- Lists may be put together from parts that have the same first items. -/
theorem append (h : SameFirst xs ys) (h' : SameFirst xs' ys') :
    SameFirst (xs ++ xs') (ys ++ ys') := by
  intro γ g
  rw [List.findSome?_append, List.findSome?_append, h γ g, h' γ g]

theorem filter (h : SameFirst xs ys) (test : α → Bool) :
    SameFirst (xs.filter test) (ys.filter test) := by
  rw [← List.filterMap_eq_filter]
  exact h.filterMap _

theorem head? (h : SameFirst xs ys) : xs.head? = ys.head? := by
  have hfirst := h α some
  rw [← List.head?_filterMap, ← List.head?_filterMap] at hfirst
  simpa using hfirst

theorem find? (h : SameFirst xs ys) (test : α → Bool) : xs.find? test = ys.find? test := by
  rw [← List.head?_filter, ← List.head?_filter, (h.filter test).head?]

end SameFirst

/-- A trail from the top to a place has the first hits of the way straight upwards, as long as
nothing is hit aside. -/
theorem Trail.sameFirst_filterMap {β : Type} {f : List String → Option β} {target : List String}
    {before : List (List String)} (htrail : Trail [] (target :: before))
    (hf : ∀ place, ¬ place <:+ target → f place = none) :
    SameFirst ((target :: before).filterMap f) (target.tails.filterMap f) := by
  intro γ g
  rw [findSome?_filterMap, findSome?_filterMap]
  refine htrail.findSome?_eq (fun place haside => ?_) (List.suffix_refl target)
    (List.suffix_refl target) fun other hinner houter hne => ?_
  · rw [hf place haside]
    rfl
  · exact absurd (houter.eq_of_length_le hinner.length_le) hne

/-! ## The rules of layers with the same first hits -/

/-- What a rule comes to in a cascade depends on the first entry that says something. -/
theorem RuleEntry.cascade?_reverse_congr {entries others : List RuleEntry}
    (h : SameFirst entries others) : cascade? entries.reverse = cascade? others.reverse := by
  have hoptions : lastOptions entries.reverse = lastOptions others.reverse := by
    unfold lastOptions
    rw [List.map_reverse, List.map_reverse, List.filter_reverse, List.filter_reverse,
      List.getLast?_reverse, List.getLast?_reverse]
    rw [((h.map _).filter _).head?]
  rw [cascade?, cascade?, List.getLast?_reverse, List.getLast?_reverse, h.head?, hoptions]

namespace LintConfig

variable {layers others : List LintConfig}

/-- The rules of a cascade depend on the first layer that says something about each of them. -/
theorem rules_mergeAll_congr (h : SameFirst layers others) :
    (mergeAll layers.reverse).rules = (mergeAll others.reverse).rules := by
  refine SortedMap.ext_find? fun name => ?_
  rw [(cascade_mergeAll _).rules, (cascade_mergeAll _).rules, List.filterMap_reverse,
    List.filterMap_reverse]
  exact RuleEntry.cascade?_reverse_congr (h.filterMap _)

/-- Layers with the same first hits give every file the same rules. -/
theorem rules_forFile_congr (h : SameFirst layers others) (file : Option Path) :
    ((mergeAll layers.reverse).forFile file).rules =
      ((mergeAll others.reverse).forFile file).rules := by
  cases file with
  | none => exact rules_mergeAll_congr h
  | some file =>
    -- For one file the blocks of all layers count after all settings, inner ones last.
    have hlayers : ∀ found : List LintConfig, (mergeAll found.reverse).forFile (some file) =
        mergeAll (found.flatMap (List.reverse ∘ (·.blocks file)) ++ found.map base).reverse := by
      intro found
      rw [forFile_mergeAll_eq_mergeAll, List.reverse_append, List.map_reverse,
        List.flatMap_reverse]
    rw [hlayers, hlayers]
    exact rules_mergeAll_congr ((h.flatMap _).append (h.map _))

end LintConfig

/-! ## Layers up to the root -/

/-- The layers up to the first one that calls itself the root. Layers that cannot be loaded are
none, and make the whole fail if they come up. -/
def untilRoot : List (Option LintConfig) → Option (List LintConfig)
  | [] => some []
  | none :: _ => none
  | some config :: rest => if config.root then some [config] else (untilRoot rest).map (config :: ·)

/-- Whether a layer ends the search: it cannot be loaded, or it calls itself the root. -/
def endsSearch (layer : Option LintConfig) : Bool := layer.all (·.root)

/-- For each file the rules that layers come to, innermost first. -/
def rulesFrom? (layers : List (Option LintConfig)) : Option (Option Path → RuleSet) :=
  (untilRoot layers).map fun found file => ((LintConfig.mergeAll found.reverse).forFile file).rules

section UntilRoot

variable {α : Type} {layers others : List (Option LintConfig)}

/-- A search fails exactly if what ends it is a layer that cannot be loaded. -/
theorem untilRoot_eq_none_iff :
    untilRoot layers = none ↔ layers.find? endsSearch = some none := by
  induction layers with
  | nil => simp [untilRoot]
  | cons layer rest ih =>
    cases layer with
    | none => simp [untilRoot, endsSearch]
    | some config =>
      cases hroot : config.root with
      | true => simp [untilRoot, endsSearch, hroot]
      | false => simpa [untilRoot, endsSearch, hroot] using ih

/-- What is first hit up to the root is what is hit before the search ends. -/
theorem findSome?_of_untilRoot {β : Type} (f : LintConfig → Option β) {found : List LintConfig}
    (h : untilRoot layers = some found) :
    found.findSome? f = (layers.findSome? fun layer =>
      if (layer.bind f).isSome || endsSearch layer then some (layer.bind f) else none).join := by
  induction layers generalizing found with
  | nil =>
    cases h
    rfl
  | cons layer rest ih =>
    cases layer with
    | none => cases h
    | some config =>
      rw [untilRoot] at h
      cases hroot : config.root with
      | true =>
        rw [if_pos hroot] at h
        cases h
        cases hhit : f config <;> simp [endsSearch, hroot, hhit]
      | false =>
        rw [if_neg (by simp [hroot])] at h
        obtain ⟨further, hfurther, rfl⟩ := Option.map_eq_some_iff.1 h
        cases hhit : f config with
        | some b => simp [hhit]
        | none => simp [endsSearch, hroot, hhit, ih hfurther]

/-- Searches with the same first hits among their layers come to the same rules for every file, or
fail both. -/
theorem rulesFrom?_congr (h : SameFirst layers others) : rulesFrom? layers = rulesFrom? others := by
  have hfails : untilRoot layers = none ↔ untilRoot others = none := by
    rw [untilRoot_eq_none_iff, untilRoot_eq_none_iff, h.find?]
  unfold rulesFrom?
  cases hlayers : untilRoot layers with
  | none => rw [hfails.1 hlayers]
  | some found =>
    cases hothers : untilRoot others with
    | none => rw [hfails.2 hothers] at hlayers; cases hlayers
    | some further =>
      have hsame : SameFirst found further := by
        intro β f
        rw [findSome?_of_untilRoot f hlayers, findSome?_of_untilRoot f hothers, h _]
      rw [Option.map_some, Option.map_some]
      refine congrArg some (funext fun file => ?_)
      exact LintConfig.rules_forFile_congr hsame file

/-- What comes after a layer that ends the search has no say. -/
theorem untilRoot_append (h : ∃ layer ∈ layers, endsSearch layer = true) :
    untilRoot (layers ++ others) = untilRoot layers := by
  induction layers with
  | nil =>
    obtain ⟨layer, hlayer, -⟩ := h
    cases hlayer
  | cons layer rest ih =>
    cases layer with
    | none => rfl
    | some config =>
      rw [List.cons_append, untilRoot, untilRoot]
      cases hroot : config.root with
      | true => rfl
      | false =>
        obtain ⟨other, hother, hends⟩ := h
        have hrest : other ∈ rest := by
          rcases List.mem_cons.1 hother with rfl | hrest
          · simp [endsSearch, hroot] at hends
          · exact hrest
        rw [ih ⟨other, hrest, hends⟩]

/-- Items that point to the same layers up to the root come to the same. -/
theorem untilRoot_filterMap_congr {f g : α → Option (Option LintConfig)} {items : List α}
    (h : ∀ item ∈ throughFirst (fun item => (f item).any (·.any (·.root))) items, f item = g item) :
    untilRoot (items.filterMap f) = untilRoot (items.filterMap g) := by
  induction items with
  | nil => rfl
  | cons item rest ih =>
    rw [throughFirst] at h
    have hitem : f item = g item := by
      refine h item ?_
      split <;> exact List.mem_cons_self
    cases hlayer : f item with
    | none =>
      rw [hlayer] at h hitem
      rw [List.filterMap_cons_none hlayer, List.filterMap_cons_none hitem.symm]
      exact ih fun other hother => h other (List.mem_cons_of_mem _ hother)
    | some layer =>
      rw [hlayer] at h hitem
      rw [List.filterMap_cons_some hlayer, List.filterMap_cons_some hitem.symm]
      cases layer with
      | none => rfl
      | some config =>
        rw [untilRoot, untilRoot]
        cases hroot : config.root with
        | true => rfl
        | false =>
          have hrest := ih fun other hother => by
            simp only [Option.any_some, hroot] at h
            exact h other (List.mem_cons_of_mem _ hother)
          rw [hrest]

end UntilRoot

/-! ## Searches on a disk -/

/-- A path that names a file has a directory above it, and the search starts there. -/
theorem parent?_join_of_fileName? {base file : Path} {name : String}
    (hname : (base.join file).fileName? = some name) :
    (base.join file).parent? = some (startDirectory base (some file)) := by
  obtain ⟨start, hparent⟩ := Path.exists_parent?_of_fileName? hname
  rw [startDirectory, hparent]
  rfl

namespace Disk

variable {α : Type} {d : Disk} {names : List String} {decode : Json → Except DecodeError α}
  {q r : Path}

/-- What the first file of a directory describes, if it has one. The description is missing if the
file cannot be loaded. -/
def firstDocument? (d : Disk) (names : List String) (decode : Json → Except DecodeError α)
    (directory : Path) : Option (Option α) :=
  (d.firstFile? names directory).map fun p =>
    (d.load p ((Notation.ofPath p).decode decode)).toOption

/-- Whether a load succeeds, and with what, is a matter of reading and of parsing. -/
theorem toOption_load (d : Disk) (p : Path) (parse : String → Except ParseFailure α) :
    (d.load p parse).toOption = (d.readText p).toOption.bind fun text => (parse text).toOption := by
  unfold load
  cases d.readText p with
  | error reason => rfl
  | ok text =>
    cases hparse : parse text <;> simp [hparse, Except.toOption, Except.mapError]

/-- Two paths with the same entries have the same first document. -/
theorem firstDocument?_congr (h : d.SameEntries q r) (hnames : ∀ name ∈ names, Path.IsName name) :
    d.firstDocument? names decode q = d.firstDocument? names decode r := by
  have hfirst : (names.find? fun name => d.isFile (q.entry name)) =
      names.find? fun name => d.isFile (r.entry name) :=
    List.find?_congr fun name hname => isFile_of_locate_eq (h name (hnames name hname))
  unfold firstDocument?
  rw [firstFile?_eq_map, firstFile?_eq_map, hfirst, Option.map_map, Option.map_map]
  refine Option.map_congr fun name hfound => ?_
  have hname := hnames name (List.mem_of_find?_eq_some hfound)
  have hnotation : Notation.ofPath (q.entry name) = Notation.ofPath (r.entry name) := by
    unfold Notation.ofPath Path.extension?
    rw [Path.fileName?_entry q hname, Path.fileName?_entry r hname]
  rw [Function.comp, Function.comp, toOption_load, toOption_load,
    readText_of_locate_eq (h name hname), hnotation]

/-- The layer of linter configuration that a directory has, if it has one. -/
def lintLayer? (d : Disk) : Path → Option (Option LintConfig) :=
  d.firstDocument? lintFileNames LintConfig.decode

/-- A directory with a configuration file has a layer, be it one that cannot be loaded. -/
theorem lintLayer?_of_some {directory path : Path}
    (hfirst : d.firstFile? lintFileNames directory = some path) :
    d.lintLayer? directory = some (d.loadLintConfig path).toOption := by
  rw [lintLayer?, firstDocument?, hfirst]
  rfl

theorem lintLayer?_eq_none_iff {directory : Path} :
    d.lintLayer? directory = none ↔ d.firstFile? lintFileNames directory = none := by
  rw [lintLayer?, firstDocument?, Option.map_eq_none_iff]

theorem lintLayer?_of_none {directory : Path}
    (hfirst : d.firstFile? lintFileNames directory = none) : d.lintLayer? directory = none :=
  lintLayer?_eq_none_iff.2 hfirst

/-- The layer of a directory is the configuration in its first file. -/
theorem lintLayer?_eq_some_some_iff {directory : Path} {config : LintConfig} :
    d.lintLayer? directory = some (some config) ↔
      ∃ path, d.firstFile? lintFileNames directory = some path ∧
        d.loadLintConfig path = .ok config := by
  rw [lintLayer?, firstDocument?, Option.map_eq_some_iff]
  refine exists_congr fun path => and_congr_right fun _ => ?_
  have hload : d.load path ((Notation.ofPath path).decode LintConfig.decode) =
      d.loadLintConfig path := rfl
  rw [hload]
  cases d.loadLintConfig path <;> simp [Except.toOption]

/-- Directories with the same entries have the same layer. -/
theorem lintLayer?_congr (h : d.SameEntries q r) : d.lintLayer? q = d.lintLayer? r :=
  firstDocument?_congr h (by decide)

/-- For each file the rules of the linter configuration around a file, if that is found. -/
def rulesAround (d : Disk) (base : Path) (file : Option Path) :
    Option (Option Path → RuleSet) :=
  (d.lintConfigAround base file).toOption.map fun config target => (config.forFile target).rules

/-- The layers that are searched are those of the directories, up to the root. -/
theorem toOption_lintLayers (d : Disk) (directories : List Path) :
    (d.lintLayers directories).toOption = untilRoot (directories.filterMap d.lintLayer?) := by
  induction directories with
  | nil => rfl
  | cons directory above ih =>
    cases hfirst : d.firstFile? lintFileNames directory with
    | none =>
      rw [lintLayers_cons_none above hfirst,
        List.filterMap_cons_none (lintLayer?_of_none hfirst), ih]
    | some path =>
      rw [List.filterMap_cons_some (lintLayer?_of_some hfirst)]
      cases hload : d.loadLintConfig path with
      | error failure => rw [lintLayers_cons_error above hfirst hload]; rfl
      | ok config =>
        rw [lintLayers_cons_some above hfirst hload, Except.toOption, untilRoot, ← ih]
        split
        · rfl
        · cases d.lintLayers above <;> rfl

/-- The configuration around a file is a function of the layers of the directories. -/
theorem toOption_lintConfigAround (d : Disk) (base : Path) (file : Option Path) :
    (d.lintConfigAround base file).toOption =
      (untilRoot ((searchedDirectories base file).filterMap d.lintLayer?)).map fun layers =>
        .mergeAll layers.reverse := by
  rw [← toOption_lintLayers, lintConfigAround]
  cases d.lintLayers (searchedDirectories base file) <;> rfl

/-- The rules around a file are a function of the layers of the directories. -/
theorem rulesAround_eq (d : Disk) (base : Path) (file : Option Path) :
    d.rulesAround base file =
      rulesFrom? ((searchedDirectories base file).filterMap d.lintLayer?) := by
  rw [rulesAround, toOption_lintConfigAround, Option.map_map, rulesFrom?]
  rfl

/-- The formatter options around a file are those of the first document that there is. -/
theorem toOption_formatOptionsAround (d : Disk) (base : Path) (file : Option Path) :
    (d.formatOptionsAround base file).toOption =
      ((searchedDirectories base file).findSome?
        (d.firstDocument? formatFileNames FormatOptions.decode)).getD (some .empty) := by
  have hsearch : (searchedDirectories base file).findSome?
      (d.firstDocument? formatFileNames FormatOptions.decode) =
      ((searchedDirectories base file).findSome? (d.firstFile? formatFileNames)).map fun p =>
        (d.loadFormatOptions p).toOption := by
    induction searchedDirectories base file with
    | nil => rfl
    | cons directory above ih =>
      rw [List.findSome?_cons, List.findSome?_cons, firstDocument?]
      cases d.firstFile? formatFileNames directory with
      | none => exact ih
      | some path => rfl
  unfold formatOptionsAround
  rw [hsearch]
  cases (searchedDirectories base file).findSome? (d.firstFile? formatFileNames) <;> rfl

end Disk

end Concord
