import Concord.Lookup.Nearby
import Mathlib.Data.List.Find

/-!
# What a search sees of a disk

A search for configuration goes through paths in order until one leads to a file, and loads that
file. `throughFirst` lists the items that such a search comes across. All it learns of a disk is
which file, if any, stands at each of them (`Disk.file?`), so that two disks with the same files at
these paths show it the same.
-/

namespace Concord

/-! ## Searching a list -/

variable {α β : Type}

/-- The items of a list up to and including the first one that ends the search. -/
def throughFirst (ends : α → Bool) : List α → List α
  | [] => []
  | item :: rest => if ends item then [item] else item :: throughFirst ends rest

theorem mem_of_mem_throughFirst {ends : α → Bool} {items : List α} {item : α}
    (h : item ∈ throughFirst ends items) : item ∈ items := by
  induction items with
  | nil => exact h
  | cons first rest ih =>
    rw [throughFirst] at h
    split at h
    · rw [List.mem_singleton] at h
      exact h ▸ List.mem_cons_self
    · rcases List.mem_cons.1 h with rfl | hrest
      · exact List.mem_cons_self
      · exact List.mem_cons_of_mem _ (ih hrest)

/-- Nothing beyond the first item that ends the search matters to what is gone through. -/
theorem throughFirst_congr {ends ends' : α → Bool} {items : List α}
    (h : ∀ item ∈ throughFirst ends items, ends item = ends' item) :
    throughFirst ends items = throughFirst ends' items := by
  induction items with
  | nil => rfl
  | cons item rest ih =>
    rw [throughFirst] at h
    have hitem : ends item = ends' item := by
      refine h item ?_
      split <;> exact List.mem_cons_self
    rw [throughFirst, throughFirst, ← hitem]
    split
    · rfl
    · next hends =>
      rw [if_neg hends] at h
      have hrest := ih fun other hother => h other (List.mem_cons_of_mem _ hother)
      rw [hrest]

/-- A search finds the same among the items that it goes through as in the whole list. -/
theorem find?_throughFirst (ends : α → Bool) (items : List α) :
    (throughFirst ends items).find? ends = items.find? ends := by
  induction items with
  | nil => rfl
  | cons item rest ih =>
    rw [throughFirst]
    split
    · next hends => simp [hends]
    · next hends => simp [hends, ih]

theorem mem_throughFirst_of_find? {ends : α → Bool} {items : List α} {item : α}
    (h : items.find? ends = some item) : item ∈ throughFirst ends items := by
  rw [← find?_throughFirst] at h
  exact List.mem_of_find?_eq_some h

/-- Two tests that agree on the items gone through find the same. -/
theorem find?_congr_throughFirst {ends ends' : α → Bool} {items : List α}
    (h : ∀ item ∈ throughFirst ends items, ends item = ends' item) :
    items.find? ends = items.find? ends' := by
  -- Both searches end within the items that are gone through, where the two tests agree.
  have hagree : (throughFirst ends items).find? ends = (throughFirst ends items).find? ends' :=
    List.find?_congr h
  rw [← find?_throughFirst ends, hagree, throughFirst_congr h, find?_throughFirst]

/-- What the items that are gone through point to is what is gone through among the things that
items point to. -/
theorem filterMap_throughFirst (target : α → Option β) (ends : β → Bool) (items : List α) :
    (throughFirst (fun item => (target item).any ends) items).filterMap target =
      throughFirst ends (items.filterMap target) := by
  induction items with
  | nil => rfl
  | cons item rest ih =>
    cases h : target item with
    | none => simp [throughFirst, h, ih]
    | some b => cases hends : ends b <;> simp [throughFirst, h, hends, ih]

/-! ## Files on a disk -/

/-- The file that a failed look-up is about. -/
def LookupFailure.path : LookupFailure → Path
  | .read path _ => path
  | .parse path _ => path

/-! ## Where a search starts -/

/-- A search starts in the directory above the file. Where there is none above it, and for a text
without a file, it starts in the directory that relative paths lead from. -/
inductive StartsIn (base : Path) : Option Path → Path → Prop where
  | text : StartsIn base none base
  | above {file directory : Path} (hparent : (base.join file).parent? = some directory) :
      StartsIn base (some file) directory
  | top {file : Path} (hparent : (base.join file).parent? = none) :
      StartsIn base (some file) base

/-- The start of a search is the directory that is said to be it. -/
theorem startsIn_iff {base start : Path} {file : Option Path} :
    StartsIn base file start ↔ startDirectory base file = start := by
  constructor
  · intro h
    cases h with
    | text => rfl
    | above hparent | top hparent => rw [startDirectory, hparent, Option.getD]
  · rintro rfl
    cases file with
    | none => exact .text
    | some file =>
      rw [startDirectory]
      cases hparent : (base.join file).parent? with
      | none => exact .top hparent
      | some directory => exact .above hparent

namespace Disk

/-- The file that a path leads to, by its text; the text is missing if the bytes are none. -/
def file? (d : Disk) (p : Path) : Option (Option String) :=
  match d.node? p with
  | some (.file text) => some text
  | _ => none

theorem isFile_eq (d : Disk) (p : Path) : d.isFile p = (d.file? p).isSome := by
  unfold isFile file?
  rcases d.node? p with _ | ⟨text⟩ | ⟨entries⟩ <;> rfl

/-- The text of a file can be read unless its bytes are none. -/
theorem readText_of_file? {d : Disk} {p : Path} {text : Option String}
    (h : d.file? p = some text) :
    d.readText p = text.elim (.error .notText) .ok := by
  unfold file? node? at h
  unfold readText
  cases hplace : d.locate p with
  | error failure => simp [hplace] at h
  | ok place =>
    simp only [hplace] at h ⊢
    cases hnode : d.tree.at? place with
    | none => simp [hnode] at h
    | some node =>
      cases node with
      | directory entries => simp [hnode] at h
      | file found =>
        simp only [hnode, Option.some.injEq] at h
        subst h
        cases found <;> rfl

/-- Two paths that lead to the same place lead to a file both or neither. -/
theorem isFile_of_locate_eq {d : Disk} {p q : Path} (h : d.locate p = d.locate q) :
    d.isFile p = d.isFile q := by
  unfold isFile node?
  rw [h]

theorem readText_of_locate_eq {d : Disk} {p q : Path} (h : d.locate p = d.locate q) :
    d.readText p = d.readText q := by
  unfold readText
  rw [h]

/-- What is loaded depends on the one file that the path leads to. -/
theorem load_congr {d e : Disk} {p : Path} (hfile : d.isFile p = true)
    (h : d.file? p = e.file? p) (parse : String → Except ParseFailure α) :
    d.load p parse = e.load p parse := by
  rw [isFile_eq] at hfile
  obtain ⟨text, hd⟩ := Option.isSome_iff_exists.1 hfile
  have he : e.file? p = some text := h ▸ hd
  unfold load
  rw [readText_of_file? hd, readText_of_file? he]

section Loads

variable {d : Disk} {p : Path} {parse : String → Except ParseFailure α}

/-- A load succeeds if the file can be read and its text makes sense. -/
theorem load_eq_ok_iff {result : α} :
    d.load p parse = .ok result ↔ ∃ text, d.readText p = .ok text ∧ parse text = .ok result := by
  unfold load
  cases hread : d.readText p with
  | error reason => simp
  | ok text => cases hparse : parse text <;> simp [hparse, Except.mapError]

/-- A load fails if the file cannot be read, or if its text makes no sense. -/
theorem load_eq_error_iff {cause : LookupFailure} :
    d.load p parse = .error cause ↔
      (∃ reason, d.readText p = .error reason ∧ cause = .read p reason) ∨
      ∃ text reason, d.readText p = .ok text ∧ parse text = .error reason ∧
        cause = .parse p reason := by
  unfold load
  cases hread : d.readText p with
  | error reason => simp [eq_comm]
  | ok text => cases hparse : parse text <;> simp [hparse, Except.mapError, eq_comm]

/-- A load that fails is about the file that was to be loaded. -/
theorem path_of_load_eq_error {failure : LookupFailure} (h : d.load p parse = .error failure) :
    failure.path = p := by
  rcases load_eq_error_iff.1 h with ⟨reason, -, rfl⟩ | ⟨text, reason, -, -, rfl⟩
  · rfl
  · rfl

end Loads

/-! ## The first file under some names -/

/-- Two disks with the same files up to the first one among some paths have the same first one. -/
theorem find?_isFile_congr {d e : Disk} {paths : List Path}
    (h : ∀ p ∈ throughFirst d.isFile paths, d.file? p = e.file? p) :
    paths.find? d.isFile = paths.find? e.isFile := by
  refine find?_congr_throughFirst fun p hp => ?_
  rw [isFile_eq, isFile_eq, h p hp]

/-- The paths that are tried in a directory: those of the names in order, up to the first file. -/
def tried (d : Disk) (names : List String) (directory : Path) : List Path :=
  throughFirst d.isFile (names.map directory.entry)

/-- The first file is one under the first name that has a file. -/
theorem firstFile?_eq_map (d : Disk) (names : List String) (directory : Path) :
    d.firstFile? names directory =
      (names.find? fun name => d.isFile (directory.entry name)).map directory.entry :=
  List.find?_map

/-- Two disks with the same files at the paths that are tried have the same first file. -/
theorem firstFile?_congr {d e : Disk} {names : List String} {directory : Path}
    (h : ∀ p ∈ d.tried names directory, d.file? p = e.file? p) :
    d.firstFile? names directory = e.firstFile? names directory :=
  find?_isFile_congr h

theorem isFile_of_firstFile? {d : Disk} {names : List String} {directory p : Path}
    (h : d.firstFile? names directory = some p) : d.isFile p = true :=
  List.find?_some h

theorem mem_tried_of_firstFile? {d : Disk} {names : List String} {directory p : Path}
    (h : d.firstFile? names directory = some p) : p ∈ d.tried names directory :=
  mem_throughFirst_of_find? h

end Disk

end Concord
