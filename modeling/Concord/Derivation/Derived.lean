/-!
# What rules say about an option

Reading an option off linter rules has three outcomes: the rules say nothing, the rule that would
say it is off, or there is a value.
-/

namespace Concord

/-- What linter rules say about one formatter option. -/
inductive Derived (α : Type) where
  /-- The rule is absent, has no value, or has one that is not understood. -/
  | notConfigured
  /-- The rule is off. -/
  | disabled
  /-- The rule gives a value. -/
  | concrete (value : α)
deriving DecidableEq, Repr

namespace Derived

variable {α β : Type}

/-- A value read further; where `f` does not understand it, nothing is configured. -/
def andThen (d : Derived α) (f : α → Option β) : Derived β :=
  match d with
  | .notConfigured => .notConfigured
  | .disabled => .disabled
  | .concrete value =>
    match f value with
    | some result => .concrete result
    | none => .notConfigured

/-- The value, if there is one. -/
def value? : Derived α → Option α
  | .concrete value => some value
  | _ => none

end Derived

end Concord
