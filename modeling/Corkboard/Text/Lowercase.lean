/-
Lower case.

Every capital letter is replaced by its small letter; one letter, the dotted capital I, becomes two characters. The
capital sigma has two small forms: the final one where a word ends, that is after a cased character and not before one,
ignored characters passed over on both sides.
-/
import Corkboard.Text.CaseTable

namespace Corkboard.Text

def inRanges (ranges : List (Nat × Nat)) (n : Nat) : Bool := ranges.any fun r => r.1 ≤ n && n ≤ r.2

def isCased (c : Char) : Bool := inRanges casedRanges c.toNat

/-- a character passed over when the end of a word is looked for -/
def isIgnored (c : Char) : Bool := inRanges ignoredRanges c.toNat

/-- the small letter of a character, or the character itself -/
def smallLetter (c : Char) : Char :=
  match capitalRuns.find? fun r => r.first ≤ c.toNat && c.toNat ≤ r.last with
  | some r => if (c.toNat - r.first) % r.step = 0 then .ofNat (c.toNat + r.distance).toNat else c
  | none => c

/-- a cased character comes first once the ignored ones are passed over -/
def casedFirst (cs : List Char) : Bool := (cs.dropWhile isIgnored).head?.any isCased

/-- the lower case of one character between those before it, the nearest first, and those after it -/
def lowerChar (before : List Char) (c : Char) (after : List Char) : List Char :=
  if c.toNat = 0x3A3 then [.ofNat (if casedFirst before && !casedFirst after then 0x3C2 else 0x3C3)]
  else if c.toNat = 0x130 then [.ofNat 0x69, .ofNat 0x307]
  else [smallLetter c]

/-- the lower case of the characters after those of `before`, the nearest first -/
def lowerFrom (before : List Char) : List Char → List Char
  | [] => []
  | c :: cs => lowerChar before c cs ++ lowerFrom (c :: before) cs

def lower (s : String) : String := .ofList (lowerFrom [] s.toList)

end Corkboard.Text
