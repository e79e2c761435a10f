/-
Binary64 numbers as their bits.

A double is its 64 bits, so a sign is kept on zero and on what is not a number, and equality of doubles is equality of
bits. Arithmetic is the machine's. `orderKey` numbers the doubles in the IEEE total order (negative non-numbers, the
negative infinity, the finite values with `-0` before `0`, the infinity, positive non-numbers), and `orderKey_injective`
says that this order has no ties.
-/
namespace Corkboard

/-- a binary64 number, kept as its bits -/
structure Double where
  bits : UInt64
  deriving DecidableEq

namespace Double

/-! ## Classes -/

def signPlace : Nat := 0x8000000000000000

def isNegative (x : Double) : Bool := x.bits ≥ 0x8000000000000000

/-- the bits without the sign, which grow with the magnitude -/
def magnitude (x : Double) : Nat := x.bits.toNat % signPlace

def infinityMagnitude : Nat := 0x7ff0000000000000

def isNaN (x : Double) : Bool := x.magnitude > infinityMagnitude

def isFinite (x : Double) : Bool := x.magnitude < infinityMagnitude

def isInfinite (x : Double) : Bool := x.magnitude = infinityMagnitude

def isZero (x : Double) : Bool := x.magnitude = 0

def ofMagnitude (negative : Bool) (m : Nat) : Double := ⟨.ofNat (if negative then signPlace + m else m)⟩

def zero : Double := ⟨0⟩

def negZero : Double := ⟨0x8000000000000000⟩

/-! ## Scales -/

def pow2 (k : Nat) : Nat := Nat.pow 2 k

def pow10 (k : Nat) : Nat := Nat.pow 10 k

/-- the count of significands between one power of two and the next -/
def binadeSize : Nat := pow2 52

/-! ## Arithmetic -/

def toFloat (x : Double) : Float := .ofBits x.bits

def ofFloat (x : Float) : Double := ⟨x.toBits⟩

def add (x y : Double) : Double := ofFloat (x.toFloat + y.toFloat)

def sub (x y : Double) : Double := ofFloat (x.toFloat - y.toFloat)

def mul (x y : Double) : Double := ofFloat (x.toFloat * y.toFloat)

def div (x y : Double) : Double := ofFloat (x.toFloat / y.toFloat)

/-- the other sign, also on a zero and on what is not a number -/
def neg (x : Double) : Double := ⟨x.bits ^^^ 0x8000000000000000⟩

/-- the magnitude with a positive sign -/
def abs (x : Double) : Double := ofMagnitude false x.magnitude

/-- less as numbers; never of what is not a number -/
def lt (x y : Double) : Bool := x.toFloat < y.toFloat

/-- the lesser of two numbers, the number when only one is a number, and the second of two equal ones -/
def min (x y : Double) : Double := if y.isNaN then x else if x.lt y then x else y

/-- the greater of two numbers, the number when only one is a number, and the second of two equal ones -/
def max (x y : Double) : Double := if y.isNaN then x else if y.lt x then x else y

def two : Double := ⟨0x4000000000000000⟩

def halfGreatest : Double := ⟨0x7fdfffffffffffff⟩

def twiceLeastNormal : Double := ⟨0x0020000000000000⟩

/-- the middle of two numbers, formed so that the sum does not overflow and no tiny number is halved -/
def midpoint (x y : Double) : Double :=
  let small (z : Double) : Bool := z.abs.toFloat ≤ halfGreatest.toFloat
  if small x && small y then (x.add y).div two
  else if x.abs.lt twiceLeastNormal then x.add (y.div two)
  else if y.abs.lt twiceLeastNormal then (x.div two).add y
  else (x.div two).add (y.div two)

/-! ## Total order -/

/-- the rank of a double in the total order -/
def orderKey (x : Double) : Nat := if x.isNegative then 2 * signPlace - 1 - x.bits.toNat else signPlace + x.bits.toNat

/-- at most, in the total order -/
def totalLe (x y : Double) : Bool := x.orderKey ≤ y.orderKey

/-- **No ties.** Doubles of one rank are one double. -/
theorem orderKey_injective {x y : Double} (h : x.orderKey = y.orderKey) : x = y := by
  have hx := x.bits.toNat_lt
  have hy := y.bits.toNat_lt
  have hs (z : Double) : z.isNegative = true ↔ signPlace ≤ z.bits.toNat := by
    simp [isNegative, signPlace, UInt64.le_iff_toNat_le]
  have : x.bits.toNat = y.bits.toNat := by
    simp only [orderKey, hs, signPlace] at h
    split at h <;> split at h <;> omega
  cases x; cases y
  simpa [UInt64.toNat_inj] using this

theorem totalLe_total (x y : Double) : (x.totalLe y || y.totalLe x) = true := by
  simp only [totalLe, Bool.or_eq_true, decide_eq_true_eq]
  omega

theorem totalLe_trans {x y z : Double} (h : x.totalLe y = true) (h' : y.totalLe z = true) : x.totalLe z = true := by
  simp only [totalLe, decide_eq_true_eq] at *
  omega

theorem eq_of_totalLe {x y : Double} (h : x.totalLe y = true) (h' : y.totalLe x = true) : x = y := by
  simp only [totalLe, decide_eq_true_eq] at *
  exact orderKey_injective (by omega)

end Double

end Corkboard
