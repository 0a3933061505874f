import Concord.Proofs.Lint.Override
import Concord.Proofs.Path.Components

/-!
# Override blocks and the location of a file

Whether a pattern selects a file depends on the names in its path and on nothing else, so that other
spellings of the path make no difference to its configuration (`LintConfig.forFile_congr_names`).
Since a pattern is held against every trailing run of names, what is selected stays selected when it
is seen from further above. None of this depends on what patterns accept: the statements hold for
any `matcher`, and `Pattern.matcher` is the one of globs.
-/

namespace Concord

/-- The tails of a list are its nonempty ends. -/
theorem mem_nonemptyTails_iff {α : Type} {tail items : List α} :
    tail ∈ nonemptyTails items ↔ tail ≠ [] ∧ tail <:+ items := by
  induction items with
  | nil => simp [nonemptyTails]
  | cons item rest ih =>
    rw [nonemptyTails, List.mem_cons, ih, List.suffix_cons_iff]
    constructor
    · rintro (rfl | ⟨hne, hrest⟩)
      · exact ⟨List.cons_ne_nil item rest, .inl rfl⟩
      · exact ⟨hne, .inr hrest⟩
    · rintro ⟨hne, rfl | hrest⟩
      · exact .inl rfl
      · exact .inr ⟨hne, hrest⟩

/-! ## Selection by any matcher -/

/-- What texts a written glob accepts; none if it is malformed. -/
def Pattern.matcher (written : String) : Option (String → Bool) :=
  (parse? written).map accepts

/-- Whether a written pattern selects a file, where `matcher` says what texts a pattern accepts. -/
def Path.selectedWith (file : Path) (matcher : String → Option (String → Bool)) (written : String) :
    Bool :=
  (matcher written).any fun accepts =>
    if written.toList.contains '/' then
      (nonemptyTails file.names).any fun tail => accepts (String.intercalate "/" tail)
    else file.fileName?.any accepts

namespace Path

variable {file other dir : Path} {matcher : String → Option (String → Bool)} {written : String}
  {patterns : List String}

/-- The selection that is carried out is the one with the matcher of patterns. -/
theorem selectedBy_eq_selectedWith (file : Path) (written : String) :
    file.selectedBy written = file.selectedWith Pattern.matcher written := by
  unfold selectedBy selectedWith Pattern.matcher
  cases Pattern.parse? written with
  | none => rfl
  | some pattern => cases file.fileName? <;> rfl

theorem selectedByAny_eq_any_selectedWith (file : Path) (patterns : List String) :
    file.selectedByAny patterns = patterns.any (file.selectedWith Pattern.matcher) := by
  have hone : file.selectedBy = file.selectedWith Pattern.matcher :=
    funext (selectedBy_eq_selectedWith file)
  rw [selectedByAny, hone]

/-- Files with the same names in their paths are selected by the same patterns. -/
theorem selectedWith_congr (hname : file.fileName? = other.fileName?)
    (hnames : file.names = other.names) :
    file.selectedWith matcher = other.selectedWith matcher := by
  funext written
  rw [selectedWith, selectedWith, hnames, hname]

theorem fileName?_congr_names (hfile : file.fileName?.isSome = true)
    (hother : other.fileName?.isSome = true) (hnames : file.names = other.names) :
    file.fileName? = other.fileName? := by
  rw [fileName?_eq_getLast?_names hfile, fileName?_eq_getLast?_names hother, hnames]

theorem selectedWith_congr_names (hfile : file.fileName?.isSome = true)
    (hother : other.fileName?.isSome = true) (hnames : file.names = other.names) :
    file.selectedWith matcher = other.selectedWith matcher :=
  selectedWith_congr (fileName?_congr_names hfile hother hnames) hnames

/-- A relative path that is selected stays selected if it is seen from further up. -/
theorem selectedWith_join (hfile : file.isAbsolute = false)
    (h : file.selectedWith matcher written = true) :
    (dir.join file).selectedWith matcher written = true := by
  unfold selectedWith at h ⊢
  rw [Option.any_eq_true] at h ⊢
  obtain ⟨accepts, hmatcher, haccepts⟩ := h
  refine ⟨accepts, hmatcher, ?_⟩
  split at haccepts
  · next hslash =>
    rw [if_pos hslash]
    rw [List.any_eq_true] at haccepts ⊢
    obtain ⟨tail, htail, htext⟩ := haccepts
    obtain ⟨hne, hsuffix⟩ := mem_nonemptyTails_iff.1 htail
    have hlonger : tail <:+ (dir.join file).names := by
      rw [names_join dir hfile]
      exact hsuffix.trans (List.suffix_append dir.names file.names)
    exact ⟨tail, mem_nonemptyTails_iff.2 ⟨hne, hlonger⟩, htext⟩
  · next hslash =>
    rw [if_neg hslash]
    rw [Option.any_eq_true] at haccepts ⊢
    obtain ⟨name, hname, htext⟩ := haccepts
    exact ⟨name, fileName?_join dir hfile hname, htext⟩

theorem any_selectedWith_join (hfile : file.isAbsolute = false)
    (h : patterns.any (file.selectedWith matcher) = true) :
    patterns.any ((dir.join file).selectedWith matcher) = true := by
  rw [List.any_eq_true] at h ⊢
  obtain ⟨written, hwritten, hselected⟩ := h
  exact ⟨written, hwritten, selectedWith_join hfile hselected⟩

end Path

/-! ## Files in the same scopes -/

section Scopes

variable {file other : Path}

mutual

/-- A block comes to the same for two files that are in the same scopes. -/
theorem OverrideBlock.flatten_congr (h : ∀ scope : Scope, scope.covers file = scope.covers other) :
    ∀ block : OverrideBlock, block.flatten file = block.flatten other
  | .mk scope settings within => by
    rw [OverrideBlock.flatten, OverrideBlock.flatten]
    exact flattenOnto_congr h within _

/-- Files that lie in the same scopes get the same out of every list of blocks. -/
theorem flattenOnto_congr (h : ∀ scope : Scope, scope.covers file = scope.covers other) :
    ∀ (blocks : List OverrideBlock) (config : LintConfig),
      flattenOnto file blocks config = flattenOnto other blocks config
  | [], config => by rw [flattenOnto, flattenOnto]
  | block :: rest, config => by
    have hblock := OverrideBlock.flatten_congr h block
    rw [flattenOnto, flattenOnto, h block.scope, hblock]
    exact flattenOnto_congr h rest _

end

/-- Whether a scope covers a file depends on the names in its path alone. -/
theorem Scope.covers_congr (hname : file.fileName? = other.fileName?)
    (hnames : file.names = other.names) (scope : Scope) :
    scope.covers file = scope.covers other := by
  have hsame : ∀ patterns, file.selectedByAny patterns = other.selectedByAny patterns := by
    intro patterns
    rw [Path.selectedByAny_eq_any_selectedWith, Path.selectedByAny_eq_any_selectedWith,
      Path.selectedWith_congr hname hnames]
  rw [covers, covers, hsame, hsame]

/-- What a configuration comes to for a file depends on the names in its path alone. -/
theorem LintConfig.forFile_congr (hname : file.fileName? = other.fileName?)
    (hnames : file.names = other.names) (c : LintConfig) :
    c.forFile (some file) = c.forFile (some other) :=
  flattenOnto_congr (Scope.covers_congr hname hnames) c.overrides c.base

/-- Two files with the same names in their paths have the same configuration. -/
theorem LintConfig.forFile_congr_names (hfile : file.fileName?.isSome = true)
    (hother : other.fileName?.isSome = true) (hnames : file.names = other.names) (c : LintConfig) :
    c.forFile (some file) = c.forFile (some other) :=
  forFile_congr (Path.fileName?_congr_names hfile hother hnames) hnames c

/-- What is in a scope stays there when it is seen from further above, unless an exclusion gets hold
of it. -/
theorem Scope.covers_join {dir : Path} (hfile : file.isAbsolute = false) {scope : Scope}
    (h : scope.covers file = true) :
    scope.covers (dir.join file) = !(dir.join file).selectedByAny scope.excluded := by
  rw [covers, Bool.and_eq_true, Path.selectedByAny_eq_any_selectedWith] at h
  rw [covers, Path.selectedByAny_eq_any_selectedWith _ scope.files,
    Path.any_selectedWith_join hfile h.1, Bool.true_and]

end Scopes

/-- Selection looks at the names in a path alone. Whatever patterns accept, two paths that end in a
name and have the same names are selected by the same patterns, and every configuration comes to the
same for them. A file that a relative path leads to stays selected when the path is joined to any
directory, so that only an exclusion can take an override block away from it. -/
theorem selection_by_names :
    (∀ (file : Path) (patterns : List String),
      file.selectedByAny patterns = patterns.any (file.selectedWith Pattern.matcher)) ∧
    (∀ file other : Path, file.fileName?.isSome = true → other.fileName?.isSome = true →
      file.names = other.names →
      (∀ (matcher : String → Option (String → Bool)) (patterns : List String),
        patterns.any (file.selectedWith matcher) = patterns.any (other.selectedWith matcher)) ∧
      ∀ c : LintConfig, c.forFile (some file) = c.forFile (some other)) ∧
    ∀ file : Path, file.isAbsolute = false → ∀ dir : Path,
      (∀ (matcher : String → Option (String → Bool)) (patterns : List String),
        patterns.any (file.selectedWith matcher) = true →
        patterns.any ((dir.join file).selectedWith matcher) = true) ∧
      ∀ scope : Scope, scope.covers file = true →
        scope.covers (dir.join file) = !(dir.join file).selectedByAny scope.excluded := by
  refine ⟨Path.selectedByAny_eq_any_selectedWith, ?_, ?_⟩
  · intro file other hfile hother hnames
    refine ⟨fun matcher patterns => ?_, LintConfig.forFile_congr_names hfile hother hnames⟩
    rw [Path.selectedWith_congr_names hfile hother hnames]
  · intro file hfile dir
    exact ⟨fun matcher patterns => Path.any_selectedWith_join hfile,
      fun scope => Scope.covers_join hfile⟩

/-- Two spellings of a path, and the file seen from above, where an exclusion gets hold of it. -/
theorem selection_src :
    let file : Path := ⟨".", ["src", "", "a.js"]⟩
    let other : Path := ⟨"", ["src", "a.js", ""]⟩
    let scope : Scope := ⟨["src/*.js"], ["lib/**"]⟩
    let c := LintConfig.mk {} [.mk scope { parser := some "espree" } []]
    c.forFile (some file) = c.forFile (some other) ∧
      (c.forFile (some file)).parser = some "espree" ∧
      scope.covers file = true ∧ (Path.join ⟨"lib", []⟩ file).selectedByAny scope.files = true ∧
      scope.covers (Path.join ⟨"lib", []⟩ file) = false := by
  intro file other scope c
  obtain ⟨hglob, hspelling, habove⟩ := selection_by_names
  have hsame := (hspelling file other (by decide +kernel) (by decide +kernel)
    (by decide +kernel)).2 c
  have hcovers : scope.covers file = true := by decide +kernel
  obtain ⟨hselected, hscope⟩ := habove file (by decide +kernel) ⟨"lib", []⟩
  have hfiles : file.selectedByAny scope.files = true := by decide +kernel
  rw [hglob] at hfiles
  refine ⟨hsame, by decide +kernel, hcovers, ?_, ?_⟩
  · rw [hglob]
    exact hselected Pattern.matcher scope.files hfiles
  · rw [hscope scope hcovers]
    decide +kernel

end Concord
