/-
The shortest decimal that reads back as a double.

The reals that round to a finite double form an interval around it, with its ends exactly when the double's significand
is even. Decimal grids are tried from the coarsest: on each the two neighbours of the value are the only candidates, the
first grid with a candidate inside the interval wins, of two the nearer, and of two at one distance the even one.
-/
import Corkboard.Double.Basic

namespace Corkboard.Double

/-- a finite magnitude `significand · 2 ^ exponent`, and whether the double below is only half as far as the one
above -/
structure Scaled where
  significand : Nat
  exponent : Int
  narrowBelow : Bool

/-- the parts of a finite magnitude -/
def scaled (x : Double) : Scaled :=
  let field : Nat := x.magnitude / binadeSize
  let fraction : Nat := x.magnitude % binadeSize
  if field = 0 then ⟨fraction, -1074, false⟩
  else ⟨binadeSize + fraction, (field : Int) - 1075, fraction = 0 && field > 1⟩

/-- a decimal `digits · 10 ^ exponent` -/
structure Decimal where
  digits : Nat
  exponent : Int

/-- the comparison of `a · 10 ^ i` with `n · 2 ^ j` -/
def compareScaled (a : Nat) (i : Int) (n : Nat) (j : Int) : Ordering :=
  compare (a * pow10 i.toNat * pow2 (-j).toNat) (n * pow2 j.toNat * pow10 (-i).toNat)

/-- the decimal lies among the reals that round to the magnitude -/
def Scaled.readsBack (x : Scaled) (d : Decimal) : Bool :=
  let low := 4 * x.significand - (if x.narrowBelow then 1 else 2)
  let high := 4 * x.significand + 2
  let ends := x.significand % 2 == 0
  let below := compareScaled d.digits d.exponent low (x.exponent - 2)
  let above := compareScaled d.digits d.exponent high (x.exponent - 2)
  (below == .gt || (ends && below == .eq)) && (above == .lt || (ends && above == .eq))

/-- the least `k` with the magnitude below `10 ^ k`, searched upwards from an estimate that is not above it -/
def Scaled.scale (x : Scaled) : Int :=
  let estimate : Int := ((x.significand.log2 : Int) + x.exponent) * 30103 / 100000 - 1
  let rec climb : Nat → Int → Int
    | 0, k => k
    | fuel + 1, k => if compareScaled 1 k x.significand x.exponent == .gt then k else climb fuel (k + 1)
  climb 4 estimate

/-- the greatest multiple of `10 ^ k` that is at most the magnitude, counted in that unit -/
def Scaled.floorAt (x : Scaled) (k : Int) : Nat :=
  (x.significand * pow2 x.exponent.toNat * pow10 (-k).toNat) / (pow2 (-x.exponent).toNat * pow10 k.toNat)

/-- the neighbour on the grid of `10 ^ k` that reads back, if one does -/
def Scaled.onGrid? (x : Scaled) (k : Int) : Option Decimal :=
  let low : Decimal := ⟨x.floorAt k, k⟩
  let high : Decimal := ⟨low.digits + 1, k⟩
  match x.readsBack low, x.readsBack high with
  | true, true =>
    match compareScaled (2 * low.digits + 1) k (2 * x.significand) x.exponent with
    | .gt => some low
    | .lt => some high
    | .eq => some (if low.digits % 2 = 0 then low else high)
  | true, false => some low
  | false, true => some high
  | false, false => none

/-- trailing zeros moved into the exponent, at most as many as `fuel` -/
def Decimal.strip : Nat → Decimal → Decimal
  | 0, d => d
  | fuel + 1, d => if d.digits ≠ 0 ∧ d.digits % 10 = 0 then strip fuel ⟨d.digits / 10, d.exponent + 1⟩ else d

/-- the exact value in decimal -/
def Scaled.exact (x : Scaled) : Decimal :=
  if x.exponent < 0 then ⟨x.significand * Nat.pow 5 (-x.exponent).toNat, x.exponent⟩
  else ⟨x.significand * pow2 x.exponent.toNat, 0⟩

/-- the shortest decimal that reads back as a finite magnitude other than zero -/
def shortest (x : Double) : Decimal :=
  let s := x.scaled
  let k := s.scale
  let found := (List.range 17).findSome? fun (n : Nat) => s.onGrid? (k - ((n : Int) + 1))
  (found.getD s.exact).strip 20

end Corkboard.Double
