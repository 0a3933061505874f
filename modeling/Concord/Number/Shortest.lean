import Concord.Number.Binary64

/-!
# The fewest digits that read back

Every decimal close enough to a double rounds to it. `Binary64.shortest` picks the decimal with the
fewest digits among those, and of two with equally many the nearer one. For one digit, two digits
and so on it tries the two neighbours of the exact value on the grid of decimals with that many
digits; if a grid has any point that reads back, one of these two does.
-/

namespace Concord

/-- The decimal number `coefficient · 10 ^ power`. -/
structure Decimal where
  /-- The digits, read as one natural number. -/
  coefficient : Nat
  /-- The power of ten that scales them. -/
  power : Int
deriving DecidableEq, Repr

namespace Decimal

/-- The same number without trailing zero digits; `fuel` bounds the number of digits. -/
def trimZeros : Nat → Decimal → Decimal
  | 0, d => d
  | fuel + 1, d =>
    if d.coefficient ≠ 0 && d.coefficient % 10 = 0 then
      trimZeros fuel ⟨d.coefficient / 10, d.power + 1⟩
    else d

/-- The same number without trailing zero digits. -/
def trim (d : Decimal) : Decimal := d.trimZeros (Binary64.digitCount d.coefficient)

end Decimal

namespace Binary64

/-- The decimals that round to a double lie between `low / den` and `high / den`, ends included
exactly when `closed`. -/
structure RoundingInterval where
  /-- Numerator of the lower end. -/
  low : Nat
  /-- Numerator of the value itself. -/
  value : Nat
  /-- Numerator of the upper end. -/
  high : Nat
  /-- The common denominator. -/
  den : Nat
  /-- Whether the ends belong to the interval. -/
  closed : Bool

/-- The interval of a double's magnitude: half a step of the significand to either side, but only a
quarter below a power of two, where the doubles lie twice as close. -/
def roundingInterval (x : Binary64) : RoundingInterval :=
  let up := Nat.pow 2 x.exponent.toNat
  let narrow := 2 * x.significand = significandBound && leastExponent < x.exponent
  let below := if narrow then 1 else 2
  { low := (4 * x.significand - below) * up
    value := 4 * x.significand * up
    high := (4 * x.significand + 2) * up
    den := 4 * Nat.pow 2 (-x.exponent).toNat
    closed := x.significand % 2 == 0 }

/-- The least `k` with `num / den < 10 ^ k`, for a positive quotient. -/
def decimalExponent (num den : Nat) : Int :=
  if den ≤ num then digitCount (num / den)
  else
    let d := digitCount (den / num)
    if num * Nat.pow 10 (d - 1) = den then 2 - (d : Int) else 1 - (d : Int)

/-- The decimal on the grid of multiples of `10 ^ power` that lies in the interval, if there is
one; of two, the nearer, and of two equally near the even one. -/
def RoundingInterval.onGrid? (i : RoundingInterval) (power : Int) : Option Decimal :=
  let unit := i.den * Nat.pow 10 power.toNat
  let scale := Nat.pow 10 (-power).toNat
  let down := i.value * scale / unit
  let up := down + 1
  let downIn := if i.closed then i.low * scale ≤ down * unit else i.low * scale < down * unit
  let upIn := if i.closed then up * unit ≤ i.high * scale else up * unit < i.high * scale
  let toDown := i.value * scale - down * unit
  let toUp := up * unit - i.value * scale
  if downIn ∧ (¬ upIn ∨ toDown < toUp ∨ (toDown = toUp ∧ down % 2 = 0)) then some ⟨down, power⟩
  else if upIn then some ⟨up, power⟩
  else none

/-- The first grid with a hit, trying grids of `digits` digits and finer ones, `more` in all. -/
def RoundingInterval.firstHit (i : RoundingInterval) (k : Int) (digits : Nat) : Nat → Decimal
  | 0 => ⟨i.value * Nat.pow 10 (digits - k).toNat / i.den, k - digits⟩
  | more + 1 =>
    match i.onGrid? (k - digits) with
    | some d => d
    | none => i.firstHit k (digits + 1) more

/-- The decimal with the fewest digits that rounds to the magnitude of `x`; seventeen digits always
suffice. -/
def shortest (x : Binary64) : Decimal :=
  if x.significand = 0 then ⟨0, 0⟩
  else
    let i := x.roundingInterval
    (i.firstHit (decimalExponent i.value i.den) 1 17).trim

end Binary64

end Concord
