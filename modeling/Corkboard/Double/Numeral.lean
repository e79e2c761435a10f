/-
Reading a number that a person typed.

A numeral is an optional sign followed by `inf`, `infinity` or `nan` in any case, or by digits with at most one point
(at least one digit in all) and an optional exponent. It stands for the double nearest to its exact value.
-/
import Corkboard.Double.Nearest

namespace Corkboard.Double

def isDigit (c : Char) : Bool := '0' ≤ c && c ≤ '9'

/-- the number written by decimal digits, after `acc` -/
def digitsFrom (acc : Nat) (cs : List Char) : Nat := cs.foldl (fun n c => 10 * n + (c.toNat - 48)) acc

/-- an optional sign: whether it is a minus, and the rest -/
def takeSign : List Char → Bool × List Char
  | '-' :: cs => (true, cs)
  | '+' :: cs => (false, cs)
  | cs => (false, cs)

/-- the digits in front of the first other character, and the rest -/
def takeDigits (cs : List Char) : List Char × List Char := (cs.takeWhile isDigit, cs.dropWhile isDigit)

/-- the exponent after the mark, when only digits follow its sign -/
def exponent? (cs : List Char) : Option Int :=
  let (negative, ds) := takeSign cs
  if ds ≠ [] ∧ ds.all isDigit then
    let n : Int := digitsFrom 0 ds
    some (if negative then -n else n)
  else none

/-- a decimal numeral without a sign: its digits as one number and the exponent of ten -/
def decimal? (cs : List Char) : Option (Nat × Int) :=
  let (whole, afterWhole) := takeDigits cs
  let (places, rest) : List Char × List Char :=
    match afterWhole with
    | '.' :: cs => takeDigits cs
    | cs => ([], cs)
  let scaled (e : Int) : Option (Nat × Int) :=
    if whole = [] ∧ places = [] then none else some (digitsFrom (digitsFrom 0 whole) places, e - places.length)
  match rest with
  | [] => scaled 0
  | c :: cs => if c = 'e' ∨ c = 'E' then (exponent? cs).bind scaled else none

/-- a number in any accepted form -/
def parse? (s : String) : Option Double :=
  let (negative, cs) := takeSign s.toList
  let name := String.ofList (cs.map Char.toLower)
  if name = "inf" ∨ name = "infinity" then some (ofMagnitude negative infinityMagnitude)
  else if name = "nan" then some (ofMagnitude negative 0x7ff8000000000000)
  else (decimal? cs).map fun d => ofDecimal negative d.1 d.2

end Corkboard.Double
