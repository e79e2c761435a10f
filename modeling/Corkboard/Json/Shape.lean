/-
Shapes: what a text must hold, checked while it is read.

A shape says which JSON is wanted, and `Shape.read` reads exactly that, so a text that turns out to be the wrong thing
is refused at that place, before anything after it is looked at. A record may come as an object, its fields in any order
and other members ignored, or as an array of its fields in order. What was read is given back in one form: records as
objects with all their fields in order, identifiers in lower case.
-/
import Corkboard.Json.Reader
import Corkboard.Json.Printer
import Corkboard.Uuid

namespace Corkboard.Json

/-- what stands for a field that is left out -/
inductive Absence where
  /-- nothing: the field is required -/
  | refused
  /-- null in an object; an array must hold the field -/
  | null
  /-- the given value, also where an array ends before the field -/
  | fill (v : Json)

/-- what a text must hold -/
inductive Shape where
  /-- any value -/
  | any
  /-- a string -/
  | text
  /-- a string that is an identifier -/
  | uuid
  /-- a whole number of 64 bits with a sign -/
  | integer
  /-- a whole number of 64 bits without a sign -/
  | natural
  /-- null, or a value of the shape -/
  | optional (s : Shape)
  /-- an array of values of the shape -/
  | list (s : Shape)
  /-- an object of any values -/
  | dictionary
  /-- a name out of a list, bare or as the one member of an object, with null -/
  | choice (names : List String)
  /-- fields with their shapes -/
  | record (fields : List (String × Shape × Absence))

namespace Shape

/-! ## Leaves -/

/-- the fault of a value that is not of the wanted kind: a scalar is read before it is refused -/
def wrongKind (cs : List Char) : Fault :=
  let misfitAfter {α : Type} : Except Fault α → Fault
    | .error e => e
    | .ok _ => .misfit
  match skipSpace cs with
  | 'n' :: rest => misfitAfter (word "ull".toList rest)
  | 't' :: rest => misfitAfter (word "rue".toList rest)
  | 'f' :: rest => misfitAfter (word "alse".toList rest)
  | '"' :: rest => misfitAfter (stringBody rest)
  | '[' :: _ => .misfit
  | '\x7b' :: _ => .misfit
  | '-' :: rest => misfitAfter (number true rest)
  | rest => misfitAfter (number false rest)

def readText : Reader String := fun cs =>
  match skipSpace cs with
  | '"' :: rest => stringBody rest
  | _ => .error (wrongKind cs)

/-- a whole number between two bounds -/
def readInt (least greatest : Int) : Reader Json := fun cs =>
  let within : Json × List Char → Except Fault (Json × List Char)
    | (.int n, rest) => if least ≤ n ∧ n ≤ greatest then .ok (.int n, rest) else .error .misfit
    | _ => .error .misfit
  match skipSpace cs with
  | '-' :: rest => (number true rest).bind within
  | c :: rest => if Double.isDigit c then (number false (c :: rest)).bind within else .error (wrongKind cs)
  | [] => .error (wrongKind cs)

def readName (names : List String) : Reader Json := fun cs => do
  let (s, rest) ← readText cs
  if s ∈ names then .ok (.string s, rest) else .error .misfit

def readNull : Reader Unit := fun cs =>
  match skipSpace cs with
  | 'n' :: rest => word "ull".toList rest
  | _ => .error (wrongKind cs)

/-- the one member of an object whose name is out of a list and whose value is null. An object with anything but a name
first is malformed. -/
def readTagged (names : List String) : Reader Json := fun cs => do
  let (v, cs) ← if (skipSpace cs).head? = some '"' then readName names cs else .error .malformed
  let ((), cs) ← colon cs
  let ((), cs) ← readNull cs
  match skipSpace cs with
  | '\x7d' :: rest => .ok (v, rest)
  | _ => .error .malformed

/-! ## Records -/

/-- all fields in order from those that were read, what was left out filled in -/
def complete (given : List (String × Json)) : List (String × Shape × Absence) → Option (List (String × Json))
  | [] => some []
  | (name, _, absence) :: fs =>
    match given.lookup name, absence with
    | some v, _ => (complete given fs).map ((name, v) :: ·)
    | none, .refused => none
    | none, .null => (complete given fs).map ((name, .null) :: ·)
    | none, .fill v => (complete given fs).map ((name, v) :: ·)

/-- the fields that an array left out, when all of them may be -/
def completeArray : List (String × Shape × Absence) → Option (List (String × Json))
  | [] => some []
  | (name, _, .fill v) :: fs => (completeArray fs).map ((name, v) :: ·)
  | _ => none

/-- an outcome that may be missing, a missing one being a misfit -/
def orMisfit {α : Type} : Option α → Except Fault α
  | some a => .ok a
  | none => .error .misfit

mutual

/-- a value of the shape, with brackets at most `level` deep -/
def read : Shape → Nat → Reader Json
  | .any, level, cs => value level cs
  | .text, _, cs => (readText cs).map fun r => (.string r.1, r.2)
  | .uuid, _, cs => do
    let (s, rest) ← readText cs
    let u ← orMisfit (Uuid.parse? s)
    .ok (.string u.render, rest)
  | .integer, _, cs => readInt (-0x8000000000000000) 0x7fffffffffffffff cs
  | .natural, _, cs => readInt 0 0xffffffffffffffff cs
  | .optional s, level, cs =>
    match skipSpace cs with
    | 'n' :: rest => (word "ull".toList rest).map fun r => (.null, r.2)
    | _ => read s level cs
  | .list s, level, cs =>
    match skipSpace cs, level with
    | '[' :: _, 0 => .error .malformed
    | '[' :: rest, level + 1 => (items (read s level) rest).map fun r => (.array r.1, r.2)
    | _, _ => .error (wrongKind cs)
  | .dictionary, level, cs =>
    match skipSpace cs, level with
    | '\x7b' :: _, 0 => .error .malformed
    | '\x7b' :: rest, level + 1 =>
      (members stringBody (putMember (value level)) [] rest).map fun r => (.object r.1, r.2)
    | _, _ => .error (wrongKind cs)
  | .choice names, level, cs =>
    match skipSpace cs, level with
    | '"' :: _, _ => readName names cs
    | '\x7b' :: rest, _ + 1 => readTagged names rest
    | _, _ => .error .malformed
  | .record fields, level, cs =>
    match skipSpace cs, level with
    | '\x7b' :: _, 0 => .error .malformed
    | '\x7b' :: rest, level + 1 => do
      let (given, rest) ← members stringBody (readNamed fields level) [] rest
      let ms ← orMisfit (complete given fields)
      .ok (.object ms, rest)
    | '[' :: _, 0 => .error .malformed
    | '[' :: rest, level + 1 => do
      let (ms, rest) ← readInOrder fields level true rest
      .ok (.object ms, rest)
    | _, _ => .error (wrongKind cs)

/-- the member of a record with a given name, added to those read so far; a second one misfits -/
def readNamed : List (String × Shape × Absence) → Nat → String → List (String × Json) → Reader (List (String × Json))
  | [], _, _, given, cs => do
    let ((), cs) ← colon cs
    let ((), cs) ← skipAny cs
    .ok (given, cs)
  | (field, s, _) :: fs, level, name, given, cs =>
    if field = name then
      if (given.lookup name).isSome then .error .misfit
      else do
        let ((), cs) ← colon cs
        let (v, cs) ← read s level cs
        .ok ((name, v) :: given, cs)
    else readNamed fs level name given cs

/-- the fields of a record in order, up to the closing bracket -/
def readInOrder : List (String × Shape × Absence) → Nat → Bool → Reader (List (String × Json))
  | [], _, _, cs =>
    match skipSpace cs with
    | ']' :: rest => .ok ([], rest)
    | _ => .error .malformed
  | (field, s, absence) :: fs, level, first, cs =>
    let next (cs : List Char) : Except Fault (List (String × Json) × List Char) := do
      let (v, cs) ← read s level cs
      let (ms, cs) ← readInOrder fs level false cs
      .ok ((field, v) :: ms, cs)
    match skipSpace cs, first with
    | ']' :: rest, _ => do
      let ms ← orMisfit (completeArray ((field, s, absence) :: fs))
      .ok (ms, rest)
    | ',' :: rest, false =>
      match skipSpace rest with
      | ']' :: _ => .error .malformed
      | rest => next rest
    | _, false => .error .malformed
    | cs, true => next cs

end

def decode (s : Shape) (text : String) : Except Fault Json := (s.read levels text.toList).bind finish

end Shape

/-! ## Written types -/

/-- a type whose values are written as JSON of one shape -/
class Written (α : Type) where
  shape : Shape
  toJson : α → Json
  ofJson? : Json → Option α

/-- a value of a written type from a whole text -/
def decode {α : Type} [Written α] (text : String) : Except Fault α :=
  ((Written.shape α).decode text).bind fun v => Shape.orMisfit (Written.ofJson? v)

def encode {α : Type} [Written α] (a : α) : String := (Written.toJson a).render

instance : Written Json where
  shape := .any
  toJson := id
  ofJson? := some

instance : Written String where
  shape := .text
  toJson := .string
  ofJson? := string?

instance : Written Uuid where
  shape := .uuid
  toJson u := .string u.render
  ofJson? v := v.string?.bind Uuid.parse?

instance : Written Int where
  shape := .integer
  toJson := .int
  ofJson? := int?

instance : Written Nat where
  shape := .natural
  toJson n := .int n
  ofJson? v := v.int?.map Int.toNat

instance {α : Type} [Written α] : Written (Option α) where
  shape := .optional (Written.shape α)
  toJson a := ofOption (a.map Written.toJson)
  ofJson?
    | .null => some none
    | v => (Written.ofJson? v).map some

instance {α : Type} [Written α] : Written (List α) where
  shape := .list (Written.shape α)
  toJson := ofList Written.toJson
  ofJson? v := v.array?.bind fun vs => vs.mapM Written.ofJson?

instance : Written (Table String Json) where
  shape := .dictionary
  toJson := ofTable
  ofJson? v := v.object?.map Table.ofList

/-- a member of a record, read as the type that is wanted -/
def field? {α : Type} [Written α] (v : Json) (name : String) : Option α := (v.member? name).bind Written.ofJson?

end Corkboard.Json
