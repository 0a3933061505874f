import Concord.Path.Basic

/-!
# Paths and their texts

A path keeps its text cut at the slashes. Its text is the one that it was made from
(`Path.text_ofText`), and it is the path of its text as long as no segment holds a slash
(`Path.ofText_text_iff`): nothing is lost when a path is shown and the name is read again.
-/

namespace Concord.Path

variable {p q : Path}

/-! ## Cutting at slashes -/

/-- A text is cut at each of its slashes. -/
theorem cut_eq_splitOn (text : List Char) :
    (cut text).1 :: (cut text).2 = text.splitOn '/' := by
  induction text with
  | nil => rfl
  | cons c text ih =>
    rw [List.splitOn_cons_eq_if_modifyHead, ← ih, cut]
    by_cases hslash : c = '/'
    · simp [hslash]
    · simp [hslash]

/-- What stands between two slashes holds none. -/
theorem slash_notMem_of_mem_splitOn {text piece : List Char} (h : piece ∈ text.splitOn '/') :
    '/' ∉ piece := by
  induction text generalizing piece with
  | nil =>
    rw [List.splitOn_nil, List.mem_singleton] at h
    rw [h]
    exact List.not_mem_nil
  | cons c text ih =>
    rw [List.splitOn_cons_eq_if_modifyHead] at h
    by_cases hslash : c = '/'
    · rw [if_pos (beq_iff_eq.2 hslash)] at h
      rcases List.mem_cons.1 h with rfl | hlater
      · exact List.not_mem_nil
      · exact ih hlater
    · rw [if_neg (by simpa using hslash)] at h
      obtain ⟨head, later, hsplit⟩ := List.exists_cons_of_ne_nil (List.splitOn_ne_nil '/' text)
      rw [hsplit, List.modifyHead_cons] at h
      rcases List.mem_cons.1 h with rfl | hlater
      · rw [List.mem_cons, not_or]
        exact ⟨fun heq => hslash heq.symm, ih (hsplit ▸ List.mem_cons_self)⟩
      · exact ih (hsplit ▸ List.mem_cons_of_mem _ hlater)

/-! ## Texts -/

theorem segments_ne_nil (p : Path) : p.segments ≠ [] := List.cons_ne_nil _ _

/-- A path is determined by its segments. -/
theorem segments_inj : p.segments = q.segments ↔ p = q := by
  constructor
  · intro h
    obtain ⟨hfirst, hrest⟩ := List.cons.inj h
    cases p
    cases q
    cases hfirst
    cases hrest
    rfl
  · exact congrArg segments

/-- The segments of a text are what stands between its slashes. -/
theorem segments_ofText (text : String) :
    (ofText text).segments = (text.toList.splitOn '/').map String.ofList := by
  rw [← cut_eq_splitOn]
  rfl

theorem toList_text (p : Path) : p.text.toList = ['/'].intercalate (p.segments.map String.toList) :=
  String.toList_intercalate

/-- The text of a path that is read from a text is that text. -/
theorem text_ofText (text : String) : (ofText text).text = text := by
  have hpieces : (ofText text).segments.map String.toList = text.toList.splitOn '/' := by
    rw [segments_ofText, List.map_map]
    exact List.map_id'' (fun _ => String.toList_ofList) _
  rw [← String.toList_inj, toList_text, hpieces, List.intercalate_splitOn]

/-- A path is the path of its text unless a segment holds a slash. -/
theorem ofText_text_iff : ofText p.text = p ↔ ∀ segment ∈ p.segments, '/' ∉ segment.toList := by
  constructor
  · intro h segment hsegment
    rw [← h, segments_ofText, List.mem_map] at hsegment
    obtain ⟨piece, hpiece, rfl⟩ := hsegment
    rw [String.toList_ofList]
    exact slash_notMem_of_mem_splitOn hpiece
  · intro h
    have hpieces : ∀ piece ∈ p.segments.map String.toList, '/' ∉ piece := by
      simpa using h
    have hne : p.segments.map String.toList ≠ [] := by simp [segments_ne_nil]
    rw [← segments_inj, segments_ofText, toList_text, List.splitOn_intercalate '/' hpieces hne,
      List.map_map]
    exact List.map_id'' (fun _ => String.ofList_toList) _

end Concord.Path
