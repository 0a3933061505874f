import Concord.Number.Shortest

/-!
# Writing a double

A layout says from which powers of ten on a number is written with its point in place, and how the
exponent looks elsewhere. `Layout.write` lays out the shortest digits of a double.
-/

namespace Concord

/-- The choices made when a decimal is written out. -/
structure Layout where
  /-- The least power of ten of the first digit that is written in place. -/
  inPlaceFrom : Int
  /-- The first power of ten of the first digit that is no longer written in place. -/
  inPlaceBelow : Int
  /-- The letter before an exponent. -/
  mark : Char
  /-- Whether an exponent that is not negative carries a plus sign. -/
  plus : Bool

namespace Layout

/-- The written form of numbers in JSON text: in place from `1e-5` to below `1e16`, always with a
fraction, and an exponent such as `1e+16` or `1.5e-7` outside. -/
def json : Layout := ⟨-5, 16, 'e', true⟩

/-- `count` zeros. -/
def zeros (count : Nat) : List Char := List.replicate count '0'

/-- Digits with the point after the first `whole` of them, padded with zeros on either side so that
both parts are there. -/
def pointAt (whole : Int) (digits : List Char) : List Char :=
  if whole ≤ 0 then '0' :: '.' :: zeros (-whole).toNat ++ digits
  else
    let w := whole.toNat
    let padded := digits ++ zeros (w - digits.length)
    let fraction := padded.drop w
    padded.take w ++ '.' :: (if fraction.isEmpty then ['0'] else fraction)

/-- The text of an exponent. -/
def exponentText (l : Layout) (e : Int) : List Char :=
  let sign := if e < 0 then ['-'] else if l.plus then ['+'] else []
  l.mark :: sign ++ Nat.toDigits 10 e.natAbs

/-- The text of a decimal: its digits laid out by the power of ten of the first one. -/
def writeDecimal (l : Layout) (d : Decimal) : List Char :=
  let digits := Nat.toDigits 10 d.coefficient
  let first := d.power + digits.length - 1
  if d.coefficient = 0 || (l.inPlaceFrom ≤ first && first < l.inPlaceBelow) then
    pointAt (first + 1) digits
  else
    let fraction := digits.drop 1
    digits.take 1 ++ (if fraction.isEmpty then [] else '.' :: fraction) ++ l.exponentText first

/-- The text of a double. -/
def write (l : Layout) (x : Binary64) : List Char :=
  (if x.negative then ['-'] else []) ++ l.writeDecimal x.shortest

end Layout

end Concord
