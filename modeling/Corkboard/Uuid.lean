/-
Identifiers of cards, blocks and boards.

An identifier is 128 bits. It is written as 32 lower-case hexadecimal digits in groups of 8, 4, 4, 4 and 12, and read
from that form in either case, from the bare 32 digits, from the grouped form in braces, and from the grouped form after
`urn:uuid:`. Fresh identifiers are random bits stamped as version 4.
-/
namespace Corkboard

structure Uuid where
  bits : BitVec 128
  deriving DecidableEq

namespace Uuid

instance : Ord Uuid := ⟨fun a b => compare a.bits b.bits⟩

instance : Std.TransOrd Uuid where
  eq_swap {a b} := (Std.OrientedCmp.eq_swap : compare a.bits b.bits = (compare b.bits a.bits).swap)
  isLE_trans {a b c} h h' :=
    (Std.TransCmp.isLE_trans (show (compare a.bits b.bits).isLE from h) h' : (compare a.bits c.bits).isLE)

instance : Std.LawfulEqOrd Uuid where
  compare_self {a} := (Std.ReflCmp.compare_self : compare a.bits a.bits = .eq)
  eq_of_compare {a b} h := by
    have : a.bits = b.bits := Std.LawfulEqCmp.eq_of_compare (show compare a.bits b.bits = .eq from h)
    cases a; cases b; simpa using this

def nil : Uuid := ⟨0⟩

instance : Inhabited Uuid := ⟨nil⟩

/-! ## Hexadecimal digits -/

/-- the value of a hexadecimal digit in either case -/
def digitValue? (c : Char) : Option Nat :=
  if '0' ≤ c && c ≤ '9' then some (c.toNat - 48)
  else if 'a' ≤ c && c ≤ 'f' then some (c.toNat - 87)
  else if 'A' ≤ c && c ≤ 'F' then some (c.toNat - 55)
  else none

/-- the digit of a value below sixteen, lower-case -/
def digitChar (n : Nat) : Char := if n < 10 then .ofNat (48 + n) else .ofNat (87 + n)

/-- the number written by a list of hexadecimal digits, after `acc` -/
def numberFrom (acc : Nat) : List Char → Option Nat
  | [] => some acc
  | c :: cs => (digitValue? c).bind fun d => numberFrom (16 * acc + d) cs

/-- the last `w` hexadecimal digits of a number -/
def digits : Nat → Nat → List Char
  | 0, _ => []
  | w + 1, n => digits w (n / 16) ++ [digitChar (n % 16)]

/-! ## The written forms -/

def groupLengths : List Nat := [8, 4, 4, 4, 12]

/-- a list cut into groups of the given lengths -/
def groups : List Nat → List Char → List (List Char)
  | [], _ => []
  | w :: ws, cs => cs.take w :: groups ws (cs.drop w)

/-- the grouped lower-case form -/
def render (u : Uuid) : String :=
  .ofList (['-'].intercalate (groups groupLengths (digits 32 u.bits.toNat)))

instance : ToString Uuid := ⟨render⟩

/-- exactly 32 digits -/
def ofDigits? (cs : List Char) : Option Uuid :=
  if cs.length = 32 then (numberFrom 0 cs).map fun n => ⟨.ofNat 128 n⟩ else none

/-- digits in groups of the right lengths -/
def ofGrouped? (cs : List Char) : Option Uuid :=
  let gs := cs.splitOnP (· == '-')
  if gs.map (·.length) = groupLengths then ofDigits? gs.flatten else none

/-- any accepted form -/
def parse? (s : String) : Option Uuid :=
  match s.toList with
  | '\x7b' :: cs => if cs.getLast? = some '\x7d' then ofGrouped? cs.dropLast else none
  | cs =>
    if (cs.take 9).map Char.toLower = "urn:uuid:".toList then ofGrouped? (cs.drop 9)
    else if cs.length = 32 then ofDigits? cs
    else ofGrouped? cs

/-! ## Fresh identifiers -/

/-- random bits stamped with version 4 and the usual variant -/
def version4 (random : BitVec 128) : Uuid :=
  ⟨random &&& 0xffffffffffff0fff3fffffffffffffff#128 ||| 0x00000000000040008000000000000000#128⟩

end Uuid

end Corkboard
