/-!
# Finite doubles in exact arithmetic

A finite IEEE 754 binary64 number is kept as a sign, a significand and a power of two, so that all
arithmetic on it is arithmetic on natural numbers. Everything rests on `Binary64.ofRatio`, which
rounds one exact quotient to the nearest double, a tie going to the even significand, and answers
`none` where the quotient is too large to be finite.
-/

namespace Concord

/-- The finite double `±significand · 2 ^ exponent`. Values built by this module are canonical: the
significand is below `2 ^ 53` and, unless the exponent is the least one, at least `2 ^ 52`. -/
structure Binary64 where
  /-- Whether the number carries a minus sign; a zero may. -/
  negative : Bool
  /-- The significand. -/
  significand : Nat
  /-- The power of two that scales the significand, at least `-1074`. -/
  exponent : Int
deriving DecidableEq, Repr

namespace Binary64

/-- The power of two of the smallest doubles. -/
def leastExponent : Int := -1074

/-- The power of two of the largest doubles. -/
def greatestExponent : Int := 971

/-- One more than the greatest significand: 53 bits are kept. -/
def significandBound : Nat := Nat.pow 2 53

/-- Zero with the given sign. -/
def zero (negative : Bool) : Binary64 := ⟨negative, 0, leastExponent⟩

/-- The number with the opposite sign. -/
def negate (x : Binary64) : Binary64 := { x with negative := !x.negative }

/-- The quotient `num / den` rounded to the nearest integer, a half going to the even neighbour. -/
def roundHalfEven (num den : Nat) : Nat :=
  let quotient := num / den
  let rest := 2 * (num % den)
  if rest < den || (rest == den && quotient % 2 == 0) then quotient else quotient + 1

/-- Numerator and denominator of `num / den` divided by `2 ^ e`. -/
def scaleDown (num den : Nat) (e : Int) : Nat × Nat :=
  (num * Nat.pow 2 (-e).toNat, den * Nat.pow 2 e.toNat)

/-- The power of two at which `num / den` has a significand of 53 bits, but never one below the
least. -/
def exponentOf (num den : Nat) : Int :=
  let guess : Int := (num.log2 : Int) - (den.log2 : Int) - 53
  let (n, d) := scaleDown num den guess
  max leastExponent (if n / d < significandBound then guess else guess + 1)

/-- The double nearest to `num / den` with the given sign; `none` beyond the finite doubles. The
denominator is positive. -/
def ofRatio (negative : Bool) (num den : Nat) : Option Binary64 :=
  if num = 0 then some (zero negative)
  else
    let e := exponentOf num den
    let (n, d) := scaleDown num den e
    let s := roundHalfEven n d
    let x : Binary64 :=
      if s = significandBound then ⟨negative, s / 2, e + 1⟩ else ⟨negative, s, e⟩
    if greatestExponent < x.exponent then none else some x

/-- The magnitude as an exact quotient. -/
def toRatio (x : Binary64) : Nat × Nat :=
  (x.significand * Nat.pow 2 x.exponent.toNat, Nat.pow 2 (-x.exponent).toNat)

/-- The product, rounded once. -/
def mul (x y : Binary64) : Option Binary64 :=
  let (n, d) := x.toRatio
  let (m, e) := y.toRatio
  ofRatio (x.negative != y.negative) (n * m) (d * e)

/-- The quotient, rounded once. The divisor is not zero. -/
def div (x y : Binary64) : Option Binary64 :=
  let (n, d) := x.toRatio
  let (m, e) := y.toRatio
  ofRatio (x.negative != y.negative) (n * e) (d * m)

/-- How many decimal digits a natural number is written with. -/
def digitCount (n : Nat) : Nat := (Nat.toDigits 10 n).length

/-- The double nearest to `coefficient · 10 ^ power`; `none` beyond the finite doubles. Powers far
outside the range of doubles are settled without being computed. -/
def ofDecimal (negative : Bool) (coefficient : Nat) (power : Int) : Option Binary64 :=
  let magnitude := power + digitCount coefficient
  if coefficient = 0 || magnitude < -400 then some (zero negative)
  else if 400 < magnitude then none
  else ofRatio negative (coefficient * Nat.pow 10 power.toNat) (Nat.pow 10 (-power).toNat)

/-- The greatest power of ten that is a finite double. -/
def greatestTen : Nat := 308

/-- `x` times, or for a negative power divided by, a power of ten that is itself rounded to a
double. -/
def scaleByRoundedTen (x : Binary64) (power : Int) : Option Binary64 :=
  (ofDecimal false 1 power.natAbs).bind fun ten =>
    if 0 ≤ power then x.mul ten else x.div ten

/-- `x` scaled by a power of ten, one that is out of range being applied in steps of the greatest
in range. A zero is left alone. At most `steps` steps are taken before the rest counts as zero. -/
def scaleByTenIn (steps : Nat) (x : Binary64) (power : Int) : Option Binary64 :=
  if power.natAbs ≤ greatestTen then x.scaleByRoundedTen power
  else if x.significand = 0 then some x
  else if 0 ≤ power then none
  else
    match steps with
    | 0 => some (zero x.negative)
    | steps + 1 =>
      (x.scaleByRoundedTen (-greatestTen)).bind fun y =>
        scaleByTenIn steps y (power + greatestTen)

/-- `x` scaled by a power of ten. Three steps bring every double to zero. -/
def scaleByTen (x : Binary64) (power : Int) : Option Binary64 := scaleByTenIn 3 x power

end Binary64

end Concord
