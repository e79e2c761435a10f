/-
Numbers in JSON text.

A literal without point and exponent is a whole number when it lies in the 64-bit range (signed below zero, unsigned
above); `-0` and everything else is a double. Doubles are read in one pass: digits are gathered into a 64-bit
significand until one more would not fit, and the significand, rounded to a double, is multiplied or divided once by a
power of ten (twice below the range of the powers). So the result can miss the nearest double by a last bit. A literal
beyond the greatest double is refused.
-/
import Corkboard.Json.Basic
import Corkboard.Double.Numeral

namespace Corkboard.Json

/-- the parts of a number literal: digits before the point, digits after it, and the exponent's sign and digits -/
structure Literal where
  negative : Bool
  whole : List Char
  places : Option (List Char)
  exponent : Option (Bool × List Char)

namespace Literal

/-! ## Form -/

/-- the exponent part, if one stands here: its sign and digits, and the rest -/
def scanExponent : List Char → Option (Option (Bool × List Char) × List Char)
  | 'e' :: cs | 'E' :: cs =>
    let (negative, rest) := Double.takeSign cs
    let (ds, rest) := Double.takeDigits rest
    if ds = [] then none else some (some (negative, ds), rest)
  | cs => some (none, cs)

/-- the digits after a point, if one stands here, and the rest -/
def scanPlaces : List Char → Option (Option (List Char) × List Char)
  | '.' :: cs =>
    let (ds, rest) := Double.takeDigits cs
    if ds = [] then none else some (some ds, rest)
  | cs => some (none, cs)

/-- a literal after its sign, and the rest: no leading zeros, digits after the point and in the exponent -/
def scan (negative : Bool) (cs : List Char) : Option (Literal × List Char) :=
  let (whole, rest) := Double.takeDigits cs
  if whole = [] ∨ (whole.head? = some '0' ∧ whole ≠ ['0']) then none
  else do
    let (places, rest) ← scanPlaces rest
    let (exponent, rest) ← scanExponent rest
    pure (⟨negative, whole, places, exponent⟩, rest)

/-! ## Value -/

/-- the first number that has more than 64 binary digits -/
def wordLimit : Nat := 0x10000000000000000

/-- digits gathered after `n` while the number stays below the limit: the number, and the digits left over -/
def gather : Nat → List Char → Nat × List Char
  | n, [] => (n, [])
  | n, c :: cs =>
    let n' := 10 * n + (c.toNat - 48)
    if n' < wordLimit then gather n' cs else (n, c :: cs)

/-- the greatest power of ten that one multiplication or division takes -/
def greatestPower : Nat := 308

/-- a double scaled by a power of ten; none beyond the greatest double. Two long divisions leave nothing of any
significand. -/
def scale : Nat → Double → Int → Option Double
  | 0, x, _ => some x
  | fuel + 1, x, e =>
    if e.natAbs ≤ greatestPower then
      if 0 ≤ e then
        let y := x.mul (Double.ofDecimal false 1 e)
        if y.isInfinite then none else some y
      else some (x.div (Double.ofDecimal false 1 e.natAbs))
    else if x.isZero then some x
    else if 0 ≤ e then none
    else scale fuel (x.div (Double.ofDecimal false 1 greatestPower)) (e + greatestPower)

/-- the bound of exponents: larger ones are out of range, or of no effect on zero -/
def exponentLimit : Nat := 0x7fffffff

/-- an exponent kept within the bound -/
def clampExponent (e : Int) : Int := Max.max (-0x80000000) (Min.min e exponentLimit)

/-- the double of a significand and the exponent that its digits call for -/
def toDouble (l : Literal) (significand : Nat) (shift : Int) : Option Double :=
  let signed (x : Double) := if l.negative then x.neg else x
  match l.exponent with
  | none => (scale 5 (.ofNat significand) shift).map signed
  | some (negative, ds) =>
    let e := Double.digitsFrom 0 ds
    if e > exponentLimit then
      if significand ≠ 0 ∧ !negative then none else some (signed .zero)
    else (scale 5 (.ofNat significand) (clampExponent (if negative then shift - e else shift + e))).map signed

/-- the value of a literal; none beyond the greatest double -/
def value (l : Literal) : Option Json :=
  let (n, left) := gather 0 l.whole
  match l.places, l.exponent with
  | none, none =>
    if left ≠ [] then (l.toDouble n left.length).map .double
    else if !l.negative then some (.int n)
    else if n = 0 ∨ n > 0x8000000000000000 then some (.double (Double.ofNat n).neg)
    else some (.int (-n))
  | places, _ =>
    let ds := places.getD []
    let (m, unread) := gather n ds
    (l.toDouble m ((left.length : Int) - ((ds.length : Int) - unread.length))).map .double

end Literal

end Corkboard.Json
