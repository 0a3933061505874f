import Concord.Path.Basic
import Mathlib.Data.List.TakeWhile

/-!
# The paths above a path

A path has finitely many paths above it, since each parent is written with fewer segments, the top
and the empty path apart, which have no parent. `Path.ancestors_eq` takes the bound out of the
enumeration: the ancestors of a path are the path and the ancestors of its parent.
-/

namespace Concord.Path

/-- Going up leaves fewer segments, except that the last step may leave as many. -/
theorem parent?_cases {p q : Path} (h : p.parent? = some q) :
    q.rest.length < p.rest.length ∨ q.parent? = none := by
  unfold parent? at h
  split at h
  · next segment above habove =>
    -- The last segment that says something is dropped, and all that surround it and say nothing.
    have hlength : (above.dropWhile isVoid).length < p.rest.length := by
      have hsuffix : (segment :: above).length ≤ p.rest.reverse.length := by
        rw [← habove]
        exact List.length_dropWhile_le isVoid _
      have hdropped := List.length_dropWhile_le isVoid above
      rw [List.length_cons, List.length_reverse] at hsuffix
      omega
    dsimp only at h
    split at h
    · cases h
      right
      rfl
    · cases h
      left
      rw [List.length_reverse]
      exact hlength
  · split at h
    · cases h
    · cases h
      right
      rfl

/-- A bound on the number of paths above a path. -/
def height (p : Path) : Nat := if p.parent?.isSome then p.rest.length + 1 else 0

/-- Going up comes nearer to the end of the way up. -/
theorem height_parent? {p q : Path} (h : p.parent? = some q) : q.height < p.height := by
  have hp : p.height = p.rest.length + 1 := by simp [height, h]
  rcases parent?_cases h with hshorter | htop
  · have hq : q.height ≤ q.rest.length + 1 := by
      unfold height
      split <;> omega
    omega
  · have hq : q.height = 0 := by simp [height, htop]
    omega

/-- What passes from the parent of a path to the path holds of all paths. -/
theorem parent_induction {motive : Path → Prop}
    (h : ∀ p, (∀ q, p.parent? = some q → motive q) → motive p) (p : Path) : motive p := by
  induction hheight : p.height using Nat.strong_induction_on generalizing p with
  | _ n ih =>
    refine h p fun q hq => ih q.height ?_ q rfl
    rw [← hheight]
    exact height_parent? hq

/-- Any two bounds that suffice enumerate the same ancestors. -/
theorem ancestorsIn_eq_of_height_le {m n : Nat} {p : Path} (hm : p.height ≤ m)
    (hn : p.height ≤ n) : ancestorsIn m p = ancestorsIn n p := by
  -- One step up lowers the height, so what is left of either bound suffices for the parent.
  induction m generalizing n p with
  | zero =>
    have hnone : p.parent? = none := by
      cases h : p.parent? with
      | none => rfl
      | some q =>
        have hlt := height_parent? h
        omega
    cases n <;> simp [ancestorsIn, hnone]
  | succ m ih =>
    cases h : p.parent? with
    | none => cases n <;> simp [ancestorsIn, h]
    | some q =>
      have hlt := height_parent? h
      cases n with
      | zero => omega
      | succ n =>
        have hrest : ancestorsIn m q = ancestorsIn n q := ih (by omega) (by omega)
        simp [ancestorsIn, h, hrest]

/-- The directories on the way up are the path itself and those above its parent. -/
theorem ancestors_eq (p : Path) : p.ancestors = p :: p.parent?.elim [] ancestors := by
  have hbound : ∀ q : Path, q.height ≤ q.rest.length + 1 := by
    intro q
    unfold height
    split <;> omega
  rw [ancestors, ancestorsIn]
  cases h : p.parent? with
  | none => rfl
  | some q =>
    have hlt := height_parent? h
    have hp := hbound p
    have hrest : ancestorsIn p.rest.length q = ancestorsIn (q.rest.length + 1) q :=
      ancestorsIn_eq_of_height_le (by omega) (hbound q)
    simp [hrest, ancestors]

end Concord.Path
