import Concord.Path.Basic

/-!
# The way from one path to another

`Path.relativeTo?` walks the components of a path and of a base side by side, leaves out what they
have in common and goes up for what is left of the base. `Path.shownFrom` is the name under which a
path is shown to someone who looks from the base.
-/

namespace Concord.Path

/-- The components that lead from `base` to `path`. `pushed` says whether anything has been written
already, which ends the common part. There is no way back up through a base that itself goes up. -/
def route? : (pushed : Bool) → (path base : List Component) → Option (List Component)
  | _, [], [] => some []
  | _, path, [] => some path
  | _, [], _ :: base => (route? true [] base).map (.parent :: ·)
  | pushed, a :: path, b :: base =>
    if !pushed && a = b then route? false path base
    else if b = .current then (route? true path base).map (a :: ·)
    else if b = .parent then none
    else some (.parent :: base.map (fun _ => Component.parent) ++ a :: path)

/-- The path that leads from `base` to `p`. An absolute path is its own answer if the base is
relative; from an absolute base there is no way to a relative path. -/
def relativeTo? (p base : Path) : Option Path :=
  if p.isAbsolute != base.isAbsolute then
    if p.isAbsolute then some p else none
  else (route? false p.components base.components).map ofComponents

/-- The text under which a path is shown from `root`: the way there, or the path itself where there
is no way or an empty one. -/
def shownFrom (p root : Path) : String :=
  match p.relativeTo? root with
  | some way => if way.isEmpty then p.text else way.text
  | none => p.text

end Concord.Path
