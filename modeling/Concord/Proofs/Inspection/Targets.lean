import Concord.Inspection.Target
import Concord.Proofs.Path.Order
import Mathlib.Data.List.Sort

/-!
# What the targets are

Several texts may name one file, and may spell it differently. The targets stand strictly one after
another in the order of paths, and of all spellings of a file the one that is named first is among
them (`Disk.mem_targets_iff`). `Disk.Names` says what a single text names.
-/

namespace Concord

/-! ## The first of each run -/

section Runs

variable {p q next : Path} {paths rest : List Path}

theorem firstOfRuns_of_same (h : p.same next = true) :
    firstOfRuns (p :: next :: rest) = firstOfRuns (p :: rest) := by
  rw [firstOfRuns, Path.dropSame, if_pos h, firstOfRuns]

theorem firstOfRuns_of_not_same (h : ¬ p.same next = true) :
    firstOfRuns (p :: next :: rest) = p :: firstOfRuns (next :: rest) := by
  rw [firstOfRuns, Path.dropSame, if_neg h, firstOfRuns]

theorem firstOfRuns_sublist (paths : List Path) : (firstOfRuns paths).Sublist paths := by
  cases paths with
  | nil => exact .slnil
  | cons p rest =>
    induction rest generalizing p with
    | nil => exact List.Sublist.refl [p]
    | cons next rest ih =>
      by_cases hsame : p.same next = true
      · rw [firstOfRuns_of_same hsame]
        exact (ih p).trans ((List.sublist_cons_self next rest).cons_cons p)
      · rw [firstOfRuns_of_not_same hsame]
        exact (ih next).cons_cons p

/-- In sorted paths everything after the end of a run comes after the run. -/
theorem before_of_not_same (h : (p :: next :: rest).Pairwise fun p q => p.le q = true)
    (hne : ¬ p.same next = true) (hq : q ∈ next :: rest) : p.Before q := by
  obtain ⟨hp, hrest⟩ := List.pairwise_cons.1 h
  have hnext : p.Before next :=
    Path.before_iff.2 ⟨hp next List.mem_cons_self, fun e => hne (Path.same_iff.2 e)⟩
  rcases List.mem_cons.1 hq with rfl | hq
  · exact hnext
  · exact hnext.trans_le ((List.pairwise_cons.1 hrest).1 q hq)

/-- In sorted paths the first ones of the runs stand strictly one after another. -/
theorem pairwise_firstOfRuns (h : paths.Pairwise fun p q => p.le q = true) :
    (firstOfRuns paths).Pairwise Path.Before := by
  cases paths with
  | nil => exact .nil
  | cons p rest =>
    induction rest generalizing p with
    | nil => exact List.pairwise_singleton _ p
    | cons next rest ih =>
      by_cases hsame : p.same next = true
      · rw [firstOfRuns_of_same hsame]
        exact ih p (h.sublist ((List.sublist_cons_self next rest).cons_cons p))
      · rw [firstOfRuns_of_not_same hsame]
        refine List.pairwise_cons.2 ⟨fun q hq => ?_, ih next (List.pairwise_cons.1 h).2⟩
        exact before_of_not_same h hsame ((firstOfRuns_sublist _).subset hq)

/-- In sorted paths the first ones of the runs are those that no other spelling precedes. -/
theorem mem_firstOfRuns_iff (h : paths.Pairwise fun p q => p.le q = true) :
    q ∈ firstOfRuns paths ↔ paths.find? q.same = some q := by
  have hself : q.same q = true := Path.same_iff.2 rfl
  cases paths with
  | nil => simp [firstOfRuns]
  | cons p rest =>
    induction rest generalizing p with
    | nil =>
      rw [firstOfRuns, Path.dropSame, List.mem_singleton, List.find?_singleton]
      constructor
      · rintro rfl
        rw [if_pos hself]
      · intro hfound
        split at hfound
        · exact (Option.some.inj hfound).symm
        · cases hfound
    | cons next rest ih =>
      by_cases hsame : p.same next = true
      · have hnext : q.same next = q.same p := by rw [Path.same, Path.same, Path.same_iff.1 hsame]
        have hrest := ih p (h.sublist ((List.sublist_cons_self next rest).cons_cons p))
        rw [firstOfRuns_of_same hsame]
        refine hrest.trans ?_
        simp only [List.find?_cons, hnext]
        cases q.same p <;> rfl
      · have hrest := ih next (List.pairwise_cons.1 h).2
        rw [firstOfRuns_of_not_same hsame, List.mem_cons]
        refine (or_congr_right hrest).trans ?_
        by_cases hq : q.same p = true
        · -- No spelling of `p` follows its run.
          have hgone : (next :: rest).find? q.same ≠ some q := fun hfound =>
            (Path.before_iff.1 (before_of_not_same h hsame (List.mem_of_find?_eq_some hfound))).2
              (Path.same_iff.1 hq).symm
          rw [List.find?_cons_of_pos hq, Option.some.injEq, eq_comm]
          exact or_iff_left hgone
        · have hne : q ≠ p := by
            rintro rfl
            exact hq hself
          rw [List.find?_cons_of_neg hq]
          exact or_iff_right hne

end Runs

/-! ## Sorting -/

section Sorting

variable {paths : List Path} {p q : Path}

/-- Sorted paths do not decrease. -/
theorem pairwise_mergeSort_le (paths : List Path) :
    (paths.mergeSort Path.le).Pairwise fun p q => p.le q = true :=
  List.pairwise_mergeSort Path.le_trans Path.le_total paths

/-- Sorting does not change the order of the spellings of a path. -/
theorem filter_same_mergeSort (paths : List Path) (p : Path) :
    (paths.mergeSort Path.le).filter p.same = paths.filter p.same := by
  have hsame : (paths.filter p.same).Pairwise fun q r => q.le r = true := by
    refine List.pairwise_of_forall_mem_list fun q hq r hr => ?_
    have hpq := Path.same_iff.1 (List.mem_filter.1 hq).2
    have hpr := Path.same_iff.1 (List.mem_filter.1 hr).2
    exact Path.le_of_same (hpq.symm.trans hpr)
  have hbelow : (paths.filter p.same).Sublist paths := List.filter_sublist
  have hsub := List.sublist_mergeSort Path.le_trans Path.le_total hsame hbelow
  have hboth := hsub.filter p.same
  rw [List.filter_filter] at hboth
  simp only [Bool.and_self] at hboth
  have hlength := ((List.mergeSort_perm paths Path.le).filter p.same).length_eq
  exact (hboth.eq_of_length hlength.symm).symm

/-- Of paths that are the same, sorting leaves the first one first. -/
theorem find?_same_mergeSort (paths : List Path) (p : Path) :
    (paths.mergeSort Path.le).find? p.same = paths.find? p.same := by
  rw [← List.head?_filter, ← List.head?_filter, filter_same_mergeSort]

end Sorting

/-! ## What a text names -/

theorem isWild_iff {text : String} :
    isWild text = true ↔ ∃ c ∈ text.toList, c = '*' ∨ c = '?' ∨ c = '[' := by
  simp [isWild, or_assoc]

theorem not_isWild_iff {text : String} :
    ¬ isWild text = true ↔ ∀ c ∈ text.toList, c ≠ '*' ∧ c ≠ '?' ∧ c ≠ '[' := by
  simp [isWild, and_assoc]

namespace Disk

variable {d : Disk} {root : Path} {text : String} {p : Path} {texts texts' : List String}

/-- That a text names a target in a repository: one without special characters the path that it
spells, whether there is such a file or not, and a pattern each file among what it selects. -/
inductive Names (d : Disk) (root : Path) (text : String) : Path → Prop where
  | literal (hplain : ∀ c ∈ text.toList, c ≠ '*' ∧ c ≠ '?' ∧ c ≠ '[') :
    Names d root text (root.join (.ofText text))
  | selected {found : List Path} {p : Path}
    (hwild : ∃ c ∈ text.toList, c = '*' ∨ c = '?' ∨ c = '[')
    (hfound : d.expand? (root.join (.ofText text)) = some found) (hp : p ∈ found)
    (hfile : d.isFile p = true) : Names d root text p

/-- What a text contributes is what it names: the path itself, or the files that match a pattern. -/
theorem mem_named_iff : p ∈ d.named root text ↔ d.Names root text p := by
  by_cases hwild : isWild text = true
  · rw [named, if_pos hwild, List.mem_filter]
    constructor
    · rintro ⟨hp, hfile⟩
      cases hfound : d.expand? (root.join (.ofText text)) with
      | none => simp [hfound] at hp
      | some found =>
        exact .selected (isWild_iff.1 hwild) hfound (by simpa [hfound] using hp) hfile
    · intro h
      cases h with
      | literal hplain => exact absurd hwild (not_isWild_iff.2 hplain)
      | selected _ hfound hp hfile =>
        rw [hfound]
        exact ⟨hp, hfile⟩
  · rw [named, if_neg hwild, List.mem_singleton]
    constructor
    · rintro rfl
      exact .literal (not_isWild_iff.1 hwild)
    · intro h
      cases h with
      | literal => rfl
      | selected hspecial => exact absurd (isWild_iff.2 hspecial) hwild

/-- A text without special characters names one path, whether it exists or not. -/
theorem named_of_plain (hplain : ∀ c ∈ text.toList, c ≠ '*' ∧ c ≠ '?' ∧ c ≠ '[') :
    d.named root text = [root.join (.ofText text)] := by
  rw [named, if_neg (not_isWild_iff.2 hplain)]

/-- A malformed pattern names nothing. -/
theorem named_of_malformed (hwild : ∃ c ∈ text.toList, c = '*' ∨ c = '?' ∨ c = '[')
    (hbad : d.expand? (root.join (.ofText text)) = none) : d.named root text = [] := by
  rw [named, if_pos (isWild_iff.2 hwild), hbad]
  rfl

/-! ## The targets -/

/-- A path is a target if it is the first that is named among those with its components. -/
theorem mem_targets_iff :
    p ∈ d.targets root texts ↔ (texts.flatMap (d.named root)).find? p.same = some p := by
  rw [targets, mem_firstOfRuns_iff (pairwise_mergeSort_le _), find?_same_mergeSort]

/-- Targets strictly increase, so that none stands there twice. -/
theorem pairwise_targets (d : Disk) (root : Path) (texts : List String) :
    (d.targets root texts).Pairwise Path.Before :=
  pairwise_firstOfRuns (pairwise_mergeSort_le _)

/-- A target is the first of all named paths that are the same as it. -/
theorem find?_same_named_iff {q : Path} :
    (texts.flatMap (d.named root)).find? p.same = some q ↔
      q ∈ d.targets root texts ∧ p.components = q.components := by
  rw [mem_targets_iff]
  constructor
  · intro h
    have hpq := Path.same_iff.1 (List.find?_some h)
    exact ⟨Path.same_congr hpq ▸ h, hpq⟩
  · rintro ⟨h, hpq⟩
    rw [Path.same_congr hpq, h]

theorem named_of_mem_targets (hp : p ∈ d.targets root texts) :
    p ∈ texts.flatMap (d.named root) :=
  List.mem_of_find?_eq_some (mem_targets_iff.1 hp)

/-- No named path is lost: one that is the same is among the targets. -/
theorem exists_target_of_named (hp : p ∈ texts.flatMap (d.named root)) :
    ∃ q ∈ d.targets root texts, q.components = p.components := by
  obtain ⟨q, hq⟩ : ∃ q, (texts.flatMap (d.named root)).find? p.same = some q :=
    Option.isSome_iff_exists.1 (List.find?_isSome.2 ⟨p, hp, Path.same_iff.2 rfl⟩)
  obtain ⟨htarget, hpq⟩ := find?_same_named_iff.1 hq
  exact ⟨q, htarget, hpq.symm⟩

/-- Up to its spelling, a path is a target if some text names it. -/
theorem exists_mem_targets_iff : (∃ q ∈ d.targets root texts, q.components = p.components) ↔
    ∃ text ∈ texts, ∃ q, d.Names root text q ∧ q.components = p.components := by
  constructor
  · rintro ⟨q, hq, hsame⟩
    obtain ⟨text, htext, hnamed⟩ := List.mem_flatMap.1 (named_of_mem_targets hq)
    exact ⟨text, htext, q, mem_named_iff.1 hnamed, hsame⟩
  · rintro ⟨text, htext, q, hq, hsame⟩
    obtain ⟨r, hr, hrq⟩ :=
      exists_target_of_named (List.mem_flatMap.2 ⟨text, htext, mem_named_iff.2 hq⟩)
    exact ⟨r, hr, hrq.trans hsame⟩

/-- Two lists of texts have the same targets if and only if they name the same spelling of each
path first. -/
theorem targets_eq_iff : d.targets root texts = d.targets root texts' ↔
    ∀ p : Path, (texts.flatMap (d.named root)).find? p.same =
      (texts'.flatMap (d.named root)).find? p.same := by
  constructor
  · intro h p
    ext q
    rw [find?_same_named_iff, find?_same_named_iff, h]
  · intro h
    refine (pairwise_targets d root texts).eq_of_mem_iff (pairwise_targets d root texts') ?_
    intro p
    rw [mem_targets_iff, mem_targets_iff, h p]

end Disk

end Concord
