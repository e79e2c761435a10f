/-
The double nearest to a fraction.

A positive fraction is measured in units of a power of two chosen so that the count of units has 53 binary digits, or in
the least unit of all where that is larger. The count is rounded to the nearest natural number, a half going to the even
neighbour, and a count beyond the greatest finite double is the infinity. Bits of doubles of one sign rise with the
value, so a count that rounds up to 54 digits needs no case of its own.
-/
import Corkboard.Double.Basic

namespace Corkboard.Double

/-- a quotient rounded to the nearest natural number, a half going to the even neighbour -/
def roundDiv (num den : Nat) : Nat :=
  let q := num / den
  let r := num % den
  if 2 * r < den then q else if den < 2 * r then q + 1 else if q % 2 = 0 then q else q + 1

/-- the exponent of the greatest power of two that is at most `num / den` -/
def floorLog (num den : Nat) : Int :=
  let guess : Int := (num.log2 : Int) - den.log2
  if den * pow2 guess.toNat ≤ num * pow2 (-guess).toNat then guess else guess - 1

/-- the magnitude bits of the double nearest to `num / den` -/
def nearestMagnitude (num den : Nat) : Nat :=
  if num = 0 then 0
  else
    let unit := Max.max (floorLog num den - 52) (-1074)
    let count := roundDiv (num * pow2 (-unit).toNat) (den * pow2 unit.toNat)
    Min.min ((unit + 1074).toNat * binadeSize + count) infinityMagnitude

/-- the double nearest to a fraction with a sign -/
def nearest (negative : Bool) (num den : Nat) : Double := ofMagnitude negative (nearestMagnitude num den)

def ofInt (n : Int) : Double := nearest (n < 0) n.natAbs 1

def ofNat (n : Nat) : Double := nearest false n 1

/-- the double nearest to `digits · 10 ^ exponent`. Exponents far outside the range of doubles are not computed with. -/
def ofDecimal (negative : Bool) (digits : Nat) (exponent : Int) : Double :=
  let order : Int := (digits.log2 : Int) * 3 / 10 + exponent
  if digits = 0 then ofMagnitude negative 0
  else if order > 400 then ofMagnitude negative infinityMagnitude
  else if (digits.log2 : Int) + exponent < -400 then ofMagnitude negative 0
  else nearest negative (digits * pow10 exponent.toNat) (pow10 (-exponent).toNat)

end Corkboard.Double
