/-
Calculations over one property of many cards.

Every card brings one slot: the stored value of the property, or none. A slot is empty when it holds nothing, null, the
empty string or the empty array. Counts and shares of slots come from that test and from the test for a checked box;
counts of values look inside arrays, one level deep, and compare values by their text; numeric results take JSON numbers
and numeric strings and pass over everything else.
-/
import Corkboard.Json.Shape
import Corkboard.Text.Blank

namespace Corkboard

/-- a way to sum up the slots of a property -/
inductive Calculation where
  | none
  | count
  | countEmpty
  | countNotEmpty
  | percentEmpty
  | percentNotEmpty
  | countValue
  | countUniqueValue
  | countChecked
  | countUnchecked
  | percentChecked
  | percentUnchecked
  | sum
  | average
  | median
  | min
  | max
  | range
  deriving DecidableEq

inductive CalculationResult where
  | empty
  | count (n : Nat)
  | percent (x : Double)
  | number (x : Double)
  deriving DecidableEq

namespace Calculation

/-! ## Names and menus -/

def all : List Calculation :=
  [none, count, countEmpty, countNotEmpty, percentEmpty, percentNotEmpty, countValue, countUniqueValue, countChecked,
    countUnchecked, percentChecked, percentUnchecked, sum, average, median, min, max, range]

def name : Calculation → String
  | none => "none"
  | count => "count"
  | countEmpty => "countEmpty"
  | countNotEmpty => "countNotEmpty"
  | percentEmpty => "percentEmpty"
  | percentNotEmpty => "percentNotEmpty"
  | countValue => "countValue"
  | countUniqueValue => "countUniqueValue"
  | countChecked => "countChecked"
  | countUnchecked => "countUnchecked"
  | percentChecked => "percentChecked"
  | percentUnchecked => "percentUnchecked"
  | sum => "sum"
  | average => "average"
  | median => "median"
  | min => "min"
  | max => "max"
  | range => "range"

/-- the name in messages: with a capital letter -/
def label (c : Calculation) : String := c.name.capitalize

def ofName? (s : String) : Option Calculation := all.find? (·.name = s)

/-- what every type offers that is not a checkbox -/
def common : List Calculation :=
  [none, count, countEmpty, countNotEmpty, percentEmpty, percentNotEmpty, countValue, countUniqueValue]

def numeric : List Calculation := common ++ [sum, average, median, min, max, range]

def boxes : List Calculation := [none, count, countChecked, countUnchecked, percentChecked, percentUnchecked]

instance : Json.Written Calculation where
  shape := .choice (all.map name)
  toJson c := .string c.name
  ofJson? v := v.string?.bind ofName?

/-! ## Slots -/

/-- holds nothing, null, the empty string or the empty array -/
def isEmpty : Option Json → Bool
  | .none | some .null => true
  | some (.string s) => s = ""
  | some (.array vs) => vs = []
  | some _ => false

/-- holds true, as a boolean or as its name -/
def isChecked : Option Json → Bool
  | some (.bool b) => b
  | some (.string s) => s = "true"
  | _ => false

/-- the text by which a value is counted: none of null and of the empty string -/
def valueText : Json → Option String
  | .null => .none
  | .string s => if s = "" then .none else some s
  | v => some v.render

/-- the texts of one slot: those of the items of an array, else that of the value -/
def slotTexts : Option Json → List String
  | .none => []
  | some (.array vs) => vs.filterMap valueText
  | some v => (valueText v).toList

def valueTexts (slots : List (Option Json)) : List String := slots.flatMap slotTexts

def slotNumber : Option Json → Option Double
  | some (.int n) => some (.ofInt n)
  | some (.double x) => some x
  | some (.string s) => Double.parse? (Text.trim s)
  | _ => .none

def numbers (slots : List (Option Json)) : List Double := slots.filterMap slotNumber

/-! ## Results -/

/-- the share of a part in a whole, in hundredths; nothing of nothing is none -/
def percentOf (part total : Nat) : Double :=
  if total = 0 then .zero else ((Double.ofNat part).div (.ofNat total)).mul (.ofNat 100)

/-- the sum from left to right, from negative zero on -/
def sumOf (xs : List Double) : Double := xs.foldl Double.add .negZero

/-- the numbers folded into one from the first on; none of no numbers -/
def reduce (f : Double → Double → Double) : List Double → Option Double
  | [] => .none
  | x :: xs => some (xs.foldl f x)

/-- the middle of the numbers in their total order, or the midpoint of the two in the middle -/
def medianOf (xs : List Double) : Option Double :=
  let sorted := xs.mergeSort Double.totalLe
  let mid := sorted.length / 2
  if sorted.length % 2 = 0 then do
    let a ← sorted[mid - 1]?
    let b ← sorted[mid]?
    pure (a.midpoint b)
  else sorted[mid]?

/-- a number, or the empty result -/
def numberOr (x : Option Double) : CalculationResult := (x.map .number).getD .empty

/-- the result over the slots of all cards -/
def compute (c : Calculation) (slots : List (Option Json)) : CalculationResult :=
  let total := slots.length
  let empty := slots.countP isEmpty
  let checked := slots.countP isChecked
  let nums := numbers slots
  match c with
  | none => .empty
  | count => .count total
  | countEmpty => .count empty
  | countNotEmpty => .count (total - empty)
  | percentEmpty => .percent (percentOf empty total)
  | percentNotEmpty => .percent (percentOf (total - empty) total)
  | countValue => .count (valueTexts slots).length
  | countUniqueValue => .count (valueTexts slots).eraseDups.length
  | countChecked => .count checked
  | countUnchecked => .count (total - checked)
  | percentChecked => .percent (percentOf checked total)
  | percentUnchecked => .percent (percentOf (total - checked) total)
  | sum => .number (sumOf nums)
  | average => if nums = [] then .empty else .number ((sumOf nums).div (.ofNat nums.length))
  | median => numberOr (medianOf nums)
  | min => numberOr (reduce Double.min nums)
  | max => numberOr (reduce Double.max nums)
  | range => numberOr do pure ((← reduce Double.max nums).sub (← reduce Double.min nums))

end Calculation

/-- the written form: the kind of the result and its value -/
def CalculationResult.toJson : CalculationResult → Json
  | .empty => .object [("kind", .string "empty")]
  | .count n => .object [("kind", .string "count"), ("value", .int n)]
  | .percent x => .object [("kind", .string "percent"), ("value", .double x)]
  | .number x => .object [("kind", .string "number"), ("value", .double x)]

end Corkboard
