import Concord.Proofs.Lookup.Files
import Concord.Proofs.Path.Ancestors

/-!
# The search for formatter options

Formatter options come from one file: that of the first name that has one in the first directory
that has one, going up from where the search starts (`Disk.IsNearest`). Whatever that file holds
decides, be it a table, nothing at all or something that makes no sense, and nothing behind it is
looked at. `Disk.formatOptionsAround_nearest` says what the search comes to in each case,
`Disk.formatOptionsAround_congr` that it depends on no more than the files it tries.
-/

namespace Concord

variable {α : Type}

/-- An item is the first one of a list that passes a test. -/
def IsFirst (test : α → Bool) (items : List α) (item : α) : Prop :=
  ∃ before after, items = before ++ item :: after ∧ test item = true ∧
    ∀ other ∈ before, test other = false

/-- The first item that passes is the one that a search finds. -/
theorem isFirst_iff {test : α → Bool} {items : List α} {item : α} :
    IsFirst test items item ↔ items.find? test = some item := by
  rw [List.find?_eq_some_iff_append]
  constructor
  · rintro ⟨before, after, hitems, hitem, hbefore⟩
    exact ⟨hitem, before, after, hitems, fun other hother => by rw [hbefore other hother]; rfl⟩
  · rintro ⟨hitem, before, after, hitems, hbefore⟩
    exact ⟨before, after, hitems, hitem, fun other hother => by simpa using hbefore other hother⟩

theorem IsFirst.mem {test : α → Bool} {items : List α} {item : α} (h : IsFirst test items item) :
    item ∈ items := by
  obtain ⟨before, after, rfl, -⟩ := h
  exact List.mem_append_right before List.mem_cons_self

theorem IsFirst.passes {test : α → Bool} {items : List α} {item : α}
    (h : IsFirst test items item) : test item = true := by
  obtain ⟨-, -, -, hitem, -⟩ := h
  exact hitem

/-! ## What a file of formatter options comes to -/

/-- What becomes of the search when it ends with a file, by the text of that file. -/
inductive FormatFileGives (p : Path) : Option String → Except LookupFailure FormatOptions → Prop where
  /-- Bytes that are no text cannot be read. -/
  | notText : FormatFileGives p none (.error (.read p .notText))
  /-- A text may be no document of the file's notation. -/
  | malformed {text : String} (h : (Notation.ofPath p).read? text = none) :
      FormatFileGives p (some text) (.error (.parse p .malformed))
  /-- A table gives the options that it describes. -/
  | table {text : String} {fields : List (String × Json)}
      (h : (Notation.ofPath p).read? text = some (.object fields)) :
      FormatFileGives p (some text) (.ok (.ofFields fields))
  /-- An empty document gives no options. -/
  | blank {text : String} (h : (Notation.ofPath p).read? text = some .null) :
      FormatFileGives p (some text) (.ok .empty)
  /-- Any other document is refused. -/
  | noTable {text : String} {v : Json} (h : (Notation.ofPath p).read? text = some v)
      (hnull : v ≠ .null) (htable : ∀ fields, v ≠ .object fields) :
      FormatFileGives p (some text) (.error (.parse p (.refused .notATable)))

/-- A document that is neither a table nor empty is refused. -/
theorem FormatOptions.decode_of_noTable {v : Json} (hnull : v ≠ .null)
    (htable : ∀ fields, v ≠ .object fields) : decode v = .error .notATable := by
  unfold decode
  split
  · exact absurd rfl (htable _)
  · exact absurd rfl hnull
  · rfl

theorem Notation.decode_of_read? (n : Notation) (decode : Json → Except DecodeError α)
    {text : String} {v : Json} (h : n.read? text = some v) :
    n.decode decode text = (decode v).mapError .refused := by
  unfold Notation.decode
  rw [h]

theorem Notation.decode_of_malformed (n : Notation) (decode : Json → Except DecodeError α)
    {text : String} (h : n.read? text = none) : n.decode decode text = .error .malformed := by
  unfold Notation.decode
  rw [h]

namespace Disk

variable {d : Disk} {names : List String} {directories : List Path} {p : Path}

/-- What formatter options a file has depends on its text, and on its name only for the notation. -/
theorem loadFormatOptions_of_file? {text : Option String} (hfile : d.file? p = some text) :
    d.loadFormatOptions p = text.elim (.error (.read p .notText)) fun text =>
      ((Notation.ofPath p).decode FormatOptions.decode text).mapError (.parse p) := by
  unfold loadFormatOptions load
  rw [readText_of_file? hfile]
  cases text <;> rfl

/-- A file is loaded with the result that its text gives, and with no other. -/
theorem loadFormatOptions_eq_iff {text : Option String} (hfile : d.file? p = some text)
    {result : Except LookupFailure FormatOptions} :
    d.loadFormatOptions p = result ↔ FormatFileGives p text result := by
  rw [loadFormatOptions_of_file? hfile]
  constructor
  · rintro rfl
    cases text with
    | none => exact .notText
    | some text =>
      rw [Option.elim_some]
      cases hread : (Notation.ofPath p).read? text with
      | none =>
        rw [Notation.decode_of_malformed _ _ hread]
        exact .malformed hread
      | some v =>
        rw [Notation.decode_of_read? _ _ hread]
        by_cases hnull : v = .null
        · subst hnull
          exact .blank hread
        by_cases htable : ∃ fields, v = .object fields
        · obtain ⟨fields, rfl⟩ := htable
          exact .table hread
        · have hother : ∀ fields, v ≠ .object fields := fun fields h => htable ⟨fields, h⟩
          rw [FormatOptions.decode_of_noTable hnull hother]
          exact .noTable hread hnull hother
  · intro h
    cases h with
    | notText => rfl
    | malformed hread => rw [Option.elim_some, Notation.decode_of_malformed _ _ hread]; rfl
    | table hread => rw [Option.elim_some, Notation.decode_of_read? _ _ hread]; rfl
    | blank hread => rw [Option.elim_some, Notation.decode_of_read? _ _ hread]; rfl
    | noTable hread hnull htable =>
      rw [Option.elim_some, Notation.decode_of_read? _ _ hread,
        FormatOptions.decode_of_noTable hnull htable]
      rfl

/-! ## The nearest file -/

/-- Whether a directory has a file under one of some names. -/
def hasFile (d : Disk) (names : List String) (directory : Path) : Bool :=
  names.any fun name => d.isFile (directory.entry name)

/-- Whether a path leads to the nearest file: it lies in the first directory that has a file under
one of the names, and its name is the first one that has a file there. -/
def IsNearest (d : Disk) (names : List String) (directories : List Path) (p : Path) : Prop :=
  ∃ directory name, IsFirst (d.hasFile names) directories directory ∧
    IsFirst (fun name => d.isFile (directory.entry name)) names name ∧ p = directory.entry name

/-- In a directory the file under the first name that has one is found. -/
theorem firstFile?_eq_some_iff {directory : Path} :
    d.firstFile? names directory = some p ↔
      ∃ name, IsFirst (fun name => d.isFile (directory.entry name)) names name ∧
        p = directory.entry name := by
  rw [firstFile?_eq_map, Option.map_eq_some_iff]
  simp only [isFirst_iff, eq_comm]

/-- In a directory nothing is found exactly if no name has a file. -/
theorem firstFile?_eq_none_iff {directory : Path} :
    d.firstFile? names directory = none ↔ d.hasFile names directory = false := by
  rw [firstFile?_eq_map, Option.map_eq_none_iff, List.find?_eq_none, hasFile, List.any_eq_false]

/-- The search ends with the nearest file. -/
theorem isNearest_iff :
    d.IsNearest names directories p ↔ directories.findSome? (d.firstFile? names) = some p := by
  rw [List.findSome?_eq_some_iff]
  constructor
  · rintro ⟨directory, name, ⟨inner, outer, hdirectories, -, hinner⟩, hname, rfl⟩
    refine ⟨inner, directory, outer, hdirectories, firstFile?_eq_some_iff.2 ⟨name, hname, rfl⟩, ?_⟩
    intro below hbelow
    exact firstFile?_eq_none_iff.2 (hinner below hbelow)
  · rintro ⟨inner, directory, outer, hdirectories, hfirst, hinner⟩
    obtain ⟨name, hname, hp⟩ := firstFile?_eq_some_iff.1 hfirst
    have hhas : d.hasFile names directory = true := by
      rw [← Bool.not_eq_false, ← firstFile?_eq_none_iff, hfirst]
      exact Option.some_ne_none p
    refine ⟨directory, name, ⟨inner, outer, hdirectories, hhas, ?_⟩, hname, hp⟩
    intro below hbelow
    exact firstFile?_eq_none_iff.1 (hinner below hbelow)

/-- At most one file is the nearest. -/
theorem IsNearest.unique {q : Path} (hp : d.IsNearest names directories p)
    (hq : d.IsNearest names directories q) : p = q := by
  rw [isNearest_iff] at hp hq
  exact Option.some.inj (hp.symm.trans hq)

theorem IsNearest.isFile (h : d.IsNearest names directories p) : d.isFile p = true := by
  obtain ⟨directory, name, -, ⟨_, _, -, hfile, -⟩, rfl⟩ := h
  exact hfile

/-- There is a nearest file unless no directory has any. -/
theorem exists_isNearest_or (d : Disk) (names : List String) (directories : List Path) :
    (∃ p, d.IsNearest names directories p) ∨
      ∀ directory ∈ directories, d.hasFile names directory = false := by
  cases hfound : directories.findSome? (d.firstFile? names) with
  | some p => exact .inl ⟨p, isNearest_iff.2 hfound⟩
  | none =>
    right
    intro directory hdirectory
    exact firstFile?_eq_none_iff.1 (List.findSome?_eq_none_iff.1 hfound directory hdirectory)

/-! ## What the search looks at -/

/-- The paths that a search tries, directory by directory and in each name by name, up to the first
file. -/
def triedThrough (d : Disk) (names : List String) (directories : List Path) : List Path :=
  throughFirst d.isFile (directories.flatMap fun directory => names.map directory.entry)

/-- The search through directories is one search through all candidates, directory by directory. -/
theorem findSome?_firstFile? (d : Disk) (names : List String) (directories : List Path) :
    directories.findSome? (d.firstFile? names) =
      (directories.flatMap fun directory => names.map directory.entry).find? d.isFile :=
  List.find?_flatMap.symm

/-- The file that is found is one of those that are tried. -/
theorem mem_triedThrough_of_findSome? (h : directories.findSome? (d.firstFile? names) = some p) :
    p ∈ d.triedThrough names directories := by
  rw [findSome?_firstFile?] at h
  exact mem_throughFirst_of_find? h

/-- Two disks with the same files at the paths that are tried end the search with the same file. -/
theorem findSome?_firstFile?_congr {e : Disk}
    (h : ∀ q ∈ d.triedThrough names directories, d.file? q = e.file? q) :
    directories.findSome? (d.firstFile? names) = directories.findSome? (e.firstFile? names) := by
  rw [findSome?_firstFile?, findSome?_firstFile?]
  exact find?_isFile_congr h

/-! ## The options around a file -/

variable {base : Path} {file : Option Path}

/-- The nearest file is the one that is loaded. -/
theorem formatOptionsAround_of_isNearest
    (h : d.IsNearest formatFileNames (startDirectory base file).ancestors p) :
    d.formatOptionsAround base file = d.loadFormatOptions p := by
  unfold formatOptionsAround searchedDirectories
  rw [isNearest_iff.1 h]

/-- Without a file in any directory there are no options, which is no failure. -/
theorem formatOptionsAround_of_hasFile_eq_false
    (h : ∀ directory ∈ (startDirectory base file).ancestors,
      d.hasFile formatFileNames directory = false) :
    d.formatOptionsAround base file = .ok .empty := by
  have hnone : (startDirectory base file).ancestors.findSome? (d.firstFile? formatFileNames) =
      none := by
    refine List.findSome?_eq_none_iff.2 fun directory hdirectory => ?_
    exact firstFile?_eq_none_iff.2 (h directory hdirectory)
  unfold formatOptionsAround searchedDirectories
  rw [hnone]

/-- Two disks with the same files at the paths that are tried show the search the same. -/
theorem formatOptionsAround_congr {e : Disk}
    (h : ∀ q ∈ d.triedThrough formatFileNames (startDirectory base file).ancestors,
      d.file? q = e.file? q) :
    d.formatOptionsAround base file = e.formatOptionsAround base file := by
  unfold formatOptionsAround searchedDirectories
  rw [← findSome?_firstFile?_congr h]
  cases hfound : (startDirectory base file).ancestors.findSome? (d.firstFile? formatFileNames) with
  | none => rfl
  | some p =>
    have hfile : d.isFile p = true := (isNearest_iff.2 hfound).isFile
    exact load_congr hfile (h p (mem_triedThrough_of_findSome? hfound)) _

/-- What the search for formatter options comes to, going from the directory where it starts through
those above it. If no directory has a file under one of the names, there are no options. Otherwise
there is one nearest file, the result is that of loading it, and its text alone decides what that is:
a table gives options, an empty document none, anything else a failure. No other file has a say,
those apart that are tried before the nearest one. -/
theorem formatOptionsAround_nearest (d : Disk) (base : Path) (file : Option Path) :
    let start := startDirectory base file
    let directories := start.ancestors
    StartsIn base file start ∧
    (∀ p : Path, p.ancestors = p :: p.parent?.elim [] Path.ancestors) ∧
    ((∃! p, d.IsNearest formatFileNames directories p) ∨
      ∀ directory ∈ directories, d.hasFile formatFileNames directory = false) ∧
    (∀ p, d.IsNearest formatFileNames directories p →
      d.formatOptionsAround base file = d.loadFormatOptions p) ∧
    (∀ result, d.formatOptionsAround base file = result ↔
      (∃ p text, d.IsNearest formatFileNames directories p ∧ d.file? p = some text ∧
        FormatFileGives p text result) ∨
      (∀ directory ∈ directories, d.hasFile formatFileNames directory = false) ∧
        result = .ok .empty) ∧
    ∀ e : Disk, (∀ path ∈ d.triedThrough formatFileNames directories,
        d.file? path = e.file? path) →
      d.formatOptionsAround base file = e.formatOptionsAround base file := by
  intro start directories
  have hcases := d.exists_isNearest_or formatFileNames directories
  refine ⟨startsIn_iff.2 rfl, Path.ancestors_eq, ?_, fun p => formatOptionsAround_of_isNearest, ?_,
    fun e => formatOptionsAround_congr⟩
  · refine hcases.imp_left ?_
    rintro ⟨p, hp⟩
    exact ⟨p, hp, fun q hq => hq.unique hp⟩
  · intro result
    constructor
    · rintro rfl
      rcases hcases with ⟨p, hp⟩ | hnone
      · left
        have hfile := hp.isFile
        rw [isFile_eq] at hfile
        obtain ⟨text, htext⟩ := Option.isSome_iff_exists.1 hfile
        refine ⟨p, text, hp, htext, ?_⟩
        rw [← loadFormatOptions_eq_iff htext, formatOptionsAround_of_isNearest hp]
      · right
        exact ⟨hnone, formatOptionsAround_of_hasFile_eq_false hnone⟩
    · rintro (⟨p, text, hp, htext, hgives⟩ | ⟨hnone, rfl⟩)
      · rw [formatOptionsAround_of_isNearest hp]
        exact (loadFormatOptions_eq_iff htext).2 hgives
      · exact formatOptionsAround_of_hasFile_eq_false hnone

/-- A disk with a directory whose formatter options are an empty document. Other entries stand
beside that document and above the directory. -/
def blanked (beside above : List (String × Node)) : Disk where
  tree := .directory <|
    ("a", .directory ((".prettierrc.json", .file (some "null")) :: beside)) :: above
  cwd := []

/-- The disk with a directory in place of an earlier candidate, and with broken files behind the
document and above it. -/
def blankedAmong : Disk :=
  blanked [(".prettierrc", .emptyDirectory), (".prettierrc.toml", .file none)]
    [(".prettierrc", .file none)]

/-- The empty document hides what is behind it and above it, as if nothing were there, also from a
file in that directory. -/
theorem formatOptionsAround_blankedAmong :
    let directories : List Path := [⟨"", ["a"]⟩, ⟨"", [""]⟩]
    let nearest : Path := ⟨"", ["a", ".prettierrc.json"]⟩
    let inside : Path := .ofText "a/x.js"
    blankedAmong.IsNearest formatFileNames directories nearest ∧
      blankedAmong.file? nearest = some (some "null") ∧
      FormatFileGives nearest (some "null") (.ok .empty) ∧
      blankedAmong.formatOptionsAround ⟨"", ["a"]⟩ none = .ok .empty ∧
      StartsIn ⟨"", [""]⟩ (some inside) ⟨"", ["a"]⟩ ∧
      blankedAmong.formatOptionsAround ⟨"", [""]⟩ (some inside) = .ok .empty ∧
      (∀ path ∈ blankedAmong.triedThrough formatFileNames directories,
        blankedAmong.file? path = (blanked [] []).file? path) ∧
      blankedAmong.formatOptionsAround ⟨"", ["a"]⟩ none =
        (blanked [] []).formatOptionsAround ⟨"", ["a"]⟩ none := by
  intro directories nearest inside
  have hnearest : blankedAmong.IsNearest formatFileNames directories nearest :=
    isNearest_iff.2 (by decide +kernel)
  have htext : blankedAmong.file? nearest = some (some "null") := by decide +kernel
  have hgives : FormatFileGives nearest (some "null") (.ok .empty) := .blank rfl
  have hsame : ∀ path ∈ blankedAmong.triedThrough formatFileNames directories,
      blankedAmong.file? path = (blanked [] []).file? path := by decide +kernel
  have hstart : startDirectory ⟨"", [""]⟩ (some inside) = ⟨"", ["a"]⟩ := by decide +kernel
  obtain ⟨-, -, -, -, hgoes, hcongr⟩ := formatOptionsAround_nearest blankedAmong ⟨"", ["a"]⟩ none
  obtain ⟨hinside, -, -, -, hgoesInside, -⟩ :=
    formatOptionsAround_nearest blankedAmong ⟨"", [""]⟩ (some inside)
  refine ⟨hnearest, htext, hgives, (hgoes _).2 (.inl ⟨_, _, hnearest, htext, hgives⟩),
    hstart ▸ hinside, (hgoesInside _).2 (.inl ⟨_, _, ?_, htext, hgives⟩), hsame, hcongr _ hsame⟩
  rw [hstart]
  exact hnearest

end Disk

end Concord
