import Concord.Path.Basic

/-!
# The order of paths

Paths are put in order by their components, one after another: a component first by its kind and an
entry then by its name. This is a total order of lists of components. Paths that are spelled
differently but have the same components stand at one place in it (`Path.le_antisymm`).
-/

namespace Concord

open Std

/-! ## Components -/

namespace Component

/-- Components are compared by their kind first and then by their name. -/
theorem compare_eq_compareLex :
    Component.compare = compareLex (compareOn rank) (compareOn fun c => c.name?.getD "") := by
  funext a b
  cases a <;> cases b <;> rfl

instance : TransCmp Component.compare := by
  rw [compare_eq_compareLex]
  infer_instance

instance : LawfulEqCmp Component.compare where
  eq_of_compare := by
    intro a b h
    have hname : ∀ m n : String, Ord.compare m n = .eq → m = n :=
      fun _ _ => LawfulEqCmp.eq_of_compare
    cases a <;> cases b
    case normal.normal m n => exact congrArg normal (hname m n h)
    all_goals first | rfl | cases h

end Component

/-! ## Paths -/

namespace Path

variable {p q r : Path}

/-- Lists of components are compared like words in a dictionary. -/
theorem compareComponents_eq_compareLex :
    compareComponents = List.compareLex Component.compare := by
  funext as bs
  induction as generalizing bs with
  | nil => cases bs <;> rfl
  | cons a as ih =>
    cases bs with
    | nil => rfl
    | cons b bs => rw [compareComponents, ih, List.compareLex_cons_cons]

instance : TransCmp compareComponents := by
  rw [compareComponents_eq_compareLex]
  infer_instance

instance : LawfulEqCmp compareComponents := by
  rw [compareComponents_eq_compareLex]
  infer_instance

/-- Paths are the same if they have the same components, however they are spelled. -/
theorem same_iff : p.same q = true ↔ p.components = q.components := decide_eq_true_iff

theorem same_congr (h : p.components = q.components) : p.same = q.same := by
  funext r
  rw [same, same, h]

/-- A path does not come after another if its components do not. -/
theorem le_iff_isLE : p.le q = true ↔ (compareComponents p.components q.components).isLE = true := by
  unfold le
  cases compareComponents p.components q.components <;> simp

theorem le_trans (p q r : Path) (hpq : p.le q = true) (hqr : q.le r = true) : p.le r = true := by
  rw [le_iff_isLE] at hpq hqr ⊢
  exact TransCmp.isLE_trans hpq hqr

theorem le_total (p q : Path) : (p.le q || q.le p) = true := by
  have hswap : compareComponents q.components p.components =
      (compareComponents p.components q.components).swap := OrientedCmp.eq_swap
  rw [Bool.or_eq_true, le_iff_isLE, le_iff_isLE, hswap]
  cases compareComponents p.components q.components <;> simp

/-- Different lists of components are never level with each other. -/
theorem compareComponents_eq_iff :
    compareComponents p.components q.components = .eq ↔ p.components = q.components :=
  LawfulEqCmp.compare_eq_iff_eq

theorem le_of_same (h : p.components = q.components) : p.le q = true := by
  rw [le_iff_isLE, compareComponents_eq_iff.2 h]
  rfl

/-- Paths at the same place of the order have the same components. -/
theorem le_antisymm (hpq : p.le q = true) (hqp : q.le p = true) : p.components = q.components := by
  rw [le_iff_isLE] at hpq hqp
  exact compareComponents_eq_iff.1 (OrientedCmp.isLE_antisymm hpq hqp)

/-- A path comes before another in the order of their components. -/
def Before (p q : Path) : Prop := compareComponents p.components q.components = .lt

/-- A path stands before another if it comes no later and is not the same. -/
theorem before_iff : p.Before q ↔ p.le q = true ∧ p.components ≠ q.components := by
  rw [Before, le_iff_isLE, ne_eq, ← compareComponents_eq_iff]
  cases compareComponents p.components q.components <;> simp

theorem Before.asymm (hpq : p.Before q) : ¬ q.Before p := by
  rw [before_iff] at hpq ⊢
  exact fun hqp => hpq.2 (le_antisymm hpq.1 hqp.1)

instance : Std.Irrefl Before := ⟨fun _ h => h.asymm h⟩

instance : Std.Antisymm Before := ⟨fun _ _ h h' => absurd h' h.asymm⟩

/-- What stands before a path stands before all that come after that path. -/
theorem Before.trans_le (hpq : p.Before q) (hqr : q.le r = true) : p.Before r := by
  rw [le_iff_isLE] at hqr
  exact TransCmp.lt_of_lt_of_isLE hpq hqr

end Path

end Concord
