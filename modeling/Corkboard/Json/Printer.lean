/-
JSON text.

Values are written without spaces, members in the order in which they stand. In a string the quote, the backslash and
the characters below the space are escaped and nothing else. A double is written by its shortest digits: positionally
while its leading digit stands between the places of `10 ^ -5` and `10 ^ 15`, always with a point, and otherwise with
one digit before the point and a signed exponent.
-/
import Corkboard.Json.Basic
import Corkboard.Double.Shortest

namespace Corkboard.Json

/-! ## Numbers -/

def natChars (n : Nat) : List Char := Nat.toDigits 10 n

def intChars (n : Int) : List Char := if n < 0 then '-' :: natChars n.natAbs else natChars n.natAbs

/-- the places written positionally: from this one … -/
def leastPlace : Int := -5

/-- … to this one -/
def greatestPlace : Int := 15

/-- the digits `ds` of a decimal whose leading digit stands at `place` -/
def positional (ds : List Char) (place : Int) : List Char :=
  if place < 0 then '0' :: '.' :: (List.replicate (-place - 1).toNat '0' ++ ds)
  else
    let whole := place.toNat + 1
    let padded := ds ++ List.replicate (whole - ds.length) '0'
    let places := padded.drop whole
    padded.take whole ++ '.' :: (if places = [] then ['0'] else places)

/-- the same decimal with one digit before the point -/
def scientific (ds : List Char) (place : Int) : List Char :=
  let places := ds.drop 1
  ds.take 1 ++ (if places = [] then [] else '.' :: places) ++
    'e' :: (if place < 0 then '-' else '+') :: natChars place.natAbs

/-- a double; what is not a finite number is written as null -/
def doubleChars (x : Double) : List Char :=
  if !x.isFinite then "null".toList
  else
    let sign := if x.isNegative then ['-'] else []
    if x.isZero then sign ++ "0.0".toList
    else
      let d := x.shortest
      let ds := natChars d.digits
      let place := d.exponent + ds.length - 1
      sign ++ if leastPlace ≤ place ∧ place ≤ greatestPlace then positional ds place else scientific ds place

/-! ## Strings -/

def hexChar (n : Nat) : Char := if n < 10 then .ofNat (48 + n) else .ofNat (87 + n)

/-- a character inside a string -/
def escape (c : Char) : List Char :=
  if c = '"' then ['\\', '"']
  else if c = '\\' then ['\\', '\\']
  else if c.toNat = 8 then ['\\', 'b']
  else if c.toNat = 9 then ['\\', 't']
  else if c.toNat = 10 then ['\\', 'n']
  else if c.toNat = 12 then ['\\', 'f']
  else if c.toNat = 13 then ['\\', 'r']
  else if c.toNat < 32 then ['\\', 'u', '0', '0', hexChar (c.toNat / 16), hexChar (c.toNat % 16)]
  else [c]

def stringChars (s : String) : List Char := '"' :: (s.toList.flatMap escape ++ ['"'])

/-! ## Values -/

mutual

def chars : Json → List Char
  | .null => "null".toList
  | .bool true => "true".toList
  | .bool false => "false".toList
  | .int n => intChars n
  | .double x => doubleChars x
  | .string s => stringChars s
  | .array [] => "[]".toList
  | .array (v :: vs) => '[' :: (chars v ++ moreItems vs)
  | .object [] => ['\x7b', '\x7d']
  | .object ((k, v) :: ms) => '\x7b' :: (stringChars k ++ ':' :: (chars v ++ moreMembers ms))

/-- the items after the first, and the closing bracket -/
def moreItems : List Json → List Char
  | [] => [']']
  | v :: vs => ',' :: (chars v ++ moreItems vs)

/-- the members after the first, and the closing brace -/
def moreMembers : List (String × Json) → List Char
  | [] => ['\x7d']
  | (k, v) :: ms => ',' :: (stringChars k ++ ':' :: (chars v ++ moreMembers ms))

end

def render (v : Json) : String := .ofList v.chars

end Corkboard.Json
