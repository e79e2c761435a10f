/-
Reading JSON text from left to right.

A reader takes characters off the front of a text or stops at the first fault. A text is malformed where it stops being
JSON, and it misfits where it is JSON so far but not of the shape that was asked for; the first fault decides. Only the
space, the tab and the two line ends are skipped. A value may open as many brackets inside each other as its level
allows; a value that nobody asked for is skipped without that bound, and without looking at the range of its numbers or
at paired escapes.
-/
import Corkboard.Json.Numeral

namespace Corkboard.Json

/-- what is wrong with a text -/
inductive Fault where
  /-- not JSON -/
  | malformed
  /-- JSON so far, but not of the shape that was asked for -/
  | misfit
  deriving DecidableEq, Repr

/-- a step of reading: a result and the characters that remain, or the first fault -/
abbrev Reader (α : Type) := List Char → Except Fault (α × List Char)

/-- nesting levels in all -/
def levels : Nat := 127

/-! ## Characters -/

/-- a character between tokens -/
def isSpace (c : Char) : Bool := c = ' ' || c = '\n' || c = '\t' || c = '\r'

/-- the text from the next token on -/
def skipSpace (cs : List Char) : List Char := cs.dropWhile isSpace

def word (w : List Char) : Reader Unit := fun cs =>
  if w.isPrefixOf cs then .ok ((), cs.drop w.length) else .error .malformed

def colon : Reader Unit := fun cs =>
  match skipSpace cs with
  | ':' :: rest => .ok ((), rest)
  | _ => .error .malformed

/-! ## Strings -/

/-- a piece of a quoted string: a character, or a 16-bit unit written by an escape -/
inductive StringPiece where
  | char (c : Char)
  | unit (n : Nat)

/-- the character after a backslash, for the escapes of one character -/
def unescape? (c : Char) : Option Char :=
  if c = '"' ∨ c = '\\' ∨ c = '/' then some c
  else if c = 'b' then some (.ofNat 8)
  else if c = 'f' then some (.ofNat 12)
  else if c = 'n' then some (.ofNat 10)
  else if c = 'r' then some (.ofNat 13)
  else if c = 't' then some (.ofNat 9)
  else none

def hexValue? (c : Char) : Option Nat :=
  if '0' ≤ c && c ≤ '9' then some (c.toNat - 48)
  else if 'a' ≤ c && c ≤ 'f' then some (c.toNat - 87)
  else if 'A' ≤ c && c ≤ 'F' then some (c.toNat - 55)
  else none

/-- a 16-bit unit written by four hexadecimal digits -/
def unit? (a b c d : Char) : Option Nat := do
  let a ← hexValue? a
  let b ← hexValue? b
  let c ← hexValue? c
  let d ← hexValue? d
  pure (((a * 16 + b) * 16 + c) * 16 + d)

/-- the pieces of a string up to its closing quote, and the rest -/
def pieces : List Char → Option (List StringPiece × List Char)
  | [] => none
  | '"' :: cs => some ([], cs)
  | '\\' :: 'u' :: a :: b :: c :: d :: cs =>
    (unit? a b c d).bind fun n => (pieces cs).map fun r => (.unit n :: r.1, r.2)
  | '\\' :: c :: cs => (unescape? c).bind fun c => (pieces cs).map fun r => (.char c :: r.1, r.2)
  | c :: cs => if c.toNat < 32 ∨ c = '\\' then none else (pieces cs).map fun r => (.char c :: r.1, r.2)

/-- the characters of the pieces: a high unit and the low unit after it make one, and neither may stand alone -/
def joinPieces : List StringPiece → Option (List Char)
  | [] => some []
  | .char c :: ps => (joinPieces ps).map (c :: ·)
  | .unit n :: ps =>
    if n < 0xD800 ∨ 0xDFFF < n then (joinPieces ps).map (Char.ofNat n :: ·)
    else if 0xDC00 ≤ n then none
    else
      match ps with
      | .unit m :: qs =>
        if 0xDC00 ≤ m ∧ m ≤ 0xDFFF then
          (joinPieces qs).map (Char.ofNat ((n - 0xD800) * 0x400 + (m - 0xDC00) + 0x10000) :: ·)
        else none
      | _ => none

/-- a string after its opening quote -/
def stringBody : Reader String := fun cs =>
  match pieces cs with
  | none => .error .malformed
  | some (ps, rest) =>
    match joinPieces ps with
    | none => .error .malformed
    | some s => .ok (.ofList s, rest)

/-- a string passed over after its opening quote -/
def skipString : Reader Unit := fun cs =>
  match pieces cs with
  | none => .error .malformed
  | some (_, rest) => .ok ((), rest)

/-! ## Numbers -/

/-- a number after its sign -/
def number (negative : Bool) : Reader Json := fun cs =>
  match Literal.scan negative cs with
  | none => .error .malformed
  | some (l, rest) =>
    match l.value with
    | none => .error .malformed
    | some v => .ok (v, rest)

/-! ## Lists and objects -/

/-- items read one by one after an opening bracket or a comma, up to the closing bracket. Each item takes at least one
character, so the length of the text bounds their number. -/
def itemsFrom {α : Type} (read : Reader α) : Nat → Reader (List α)
  | 0, _ => .error .malformed
  | fuel + 1, cs => do
    let (v, cs) ← read cs
    match skipSpace cs with
    | ']' :: rest => .ok ([v], rest)
    | ',' :: rest =>
      let (vs, rest) ← itemsFrom read fuel (skipSpace rest)
      .ok (v :: vs, rest)
    | _ => .error .malformed

def items {α : Type} (read : Reader α) : Reader (List α) := fun cs =>
  match skipSpace cs with
  | ']' :: rest => .ok ([], rest)
  | cs => itemsFrom read (cs.length + 1) cs

/-- members read one by one into a growing result, up to the closing brace; `entry` reads from the colon on -/
def membersFrom {ν σ : Type} (name : Reader ν) (entry : ν → σ → Reader σ) : Nat → σ → Reader σ
  | 0, _, _ => .error .malformed
  | fuel + 1, st, cs =>
    match cs with
    | '"' :: cs => do
      let (k, cs) ← name cs
      let (st, cs) ← entry k st cs
      match skipSpace cs with
      | '\x7d' :: rest => .ok (st, rest)
      | ',' :: rest => membersFrom name entry fuel st (skipSpace rest)
      | _ => .error .malformed
    | _ => .error .malformed

def members {ν σ : Type} (name : Reader ν) (entry : ν → σ → Reader σ) (st : σ) : Reader σ := fun cs =>
  match skipSpace cs with
  | '\x7d' :: rest => .ok (st, rest)
  | cs => membersFrom name entry (cs.length + 1) st cs

/-! ## Values -/

/-- a member added to a list sorted by name, in place of one of the same name -/
def putMember (read : Reader Json) (name : String) (ms : List (String × Json)) :
    Reader (List (String × Json)) := fun cs => do
  let ((), cs) ← colon cs
  let (v, cs) ← read cs
  .ok (Table.put name v ms, cs)

/-- a value that may open brackets at most `level` deep -/
def value : Nat → Reader Json
  | level, cs =>
    match skipSpace cs with
    | 'n' :: rest => (word "ull".toList rest).map fun r => (.null, r.2)
    | 't' :: rest => (word "rue".toList rest).map fun r => (.bool true, r.2)
    | 'f' :: rest => (word "alse".toList rest).map fun r => (.bool false, r.2)
    | '"' :: rest => (stringBody rest).map fun r => (.string r.1, r.2)
    | '[' :: rest =>
      match level with
      | 0 => .error .malformed
      | level + 1 => (items (value level) rest).map fun r => (.array r.1, r.2)
    | '\x7b' :: rest =>
      match level with
      | 0 => .error .malformed
      | level + 1 => (members stringBody (putMember (value level)) [] rest).map fun r => (.object r.1, r.2)
    | '-' :: rest => number true rest
    | rest => number false rest

/-- a value passed over, with brackets at most `level` deep -/
def skip : Nat → Reader Unit
  | level, cs =>
    match skipSpace cs with
    | 'n' :: rest => word "ull".toList rest
    | 't' :: rest => word "rue".toList rest
    | 'f' :: rest => word "alse".toList rest
    | '"' :: rest => skipString rest
    | '[' :: rest =>
      match level with
      | 0 => .error .malformed
      | level + 1 => (items (skip level) rest).map fun r => ((), r.2)
    | '\x7b' :: rest =>
      match level with
      | 0 => .error .malformed
      | level + 1 => members skipString (fun _ () cs => (colon cs).bind fun r => skip level r.2) () rest
    | '-' :: rest =>
      match Literal.scan true rest with
      | none => .error .malformed
      | some (_, rest) => .ok ((), rest)
    | rest =>
      match Literal.scan false rest with
      | none => .error .malformed
      | some (_, rest) => .ok ((), rest)

/-- a value passed over, however deep its brackets: no text opens more brackets than it has characters -/
def skipAny : Reader Unit := fun cs => skip (cs.length + 1) cs

/-- nothing but space remains -/
def finish {α : Type} (r : α × List Char) : Except Fault α :=
  if skipSpace r.2 = [] then .ok r.1 else .error .malformed

/-- the value of a whole text -/
def parse (s : String) : Except Fault Json := (value levels s.toList).bind finish

end Corkboard.Json
