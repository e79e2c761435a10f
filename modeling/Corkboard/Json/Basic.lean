/-
JSON values.

Whole numbers and doubles are told apart, as the reader tells them apart. The members of an object are a list; values
that were read, and payloads built here, list them by rising key without repeats, while records list them in the order
of their fields.
-/
import Corkboard.Table
import Corkboard.Double.Basic

namespace Corkboard

inductive Json where
  | null
  | bool (value : Bool)
  | int (value : Int)
  | double (value : Double)
  | string (value : String)
  | array (items : List Json)
  | object (members : List (String × Json))

namespace Json

instance : Inhabited Json := ⟨.null⟩

mutual

def decEq : (a b : Json) → Decidable (a = b)
  | .null, .null => isTrue rfl
  | .bool a, .bool b => decidable_of_iff (a = b) (by simp)
  | .int a, .int b => decidable_of_iff (a = b) (by simp)
  | .double a, .double b => decidable_of_iff (a = b) (by simp)
  | .string a, .string b => decidable_of_iff (a = b) (by simp)
  | .array as, .array bs =>
    match decEqItems as bs with
    | isTrue h => isTrue (by rw [h])
    | isFalse h => isFalse (by simpa using h)
  | .object as, .object bs =>
    match decEqMembers as bs with
    | isTrue h => isTrue (by rw [h])
    | isFalse h => isFalse (by simpa using h)
  | .null, .bool _ | .null, .int _ | .null, .double _ | .null, .string _ | .null, .array _ | .null, .object _
  | .bool _, .null | .bool _, .int _ | .bool _, .double _ | .bool _, .string _ | .bool _, .array _ | .bool _, .object _
  | .int _, .null | .int _, .bool _ | .int _, .double _ | .int _, .string _ | .int _, .array _ | .int _, .object _
  | .double _, .null | .double _, .bool _ | .double _, .int _ | .double _, .string _ | .double _, .array _
  | .double _, .object _
  | .string _, .null | .string _, .bool _ | .string _, .int _ | .string _, .double _ | .string _, .array _
  | .string _, .object _
  | .array _, .null | .array _, .bool _ | .array _, .int _ | .array _, .double _ | .array _, .string _
  | .array _, .object _
  | .object _, .null | .object _, .bool _ | .object _, .int _ | .object _, .double _ | .object _, .string _
  | .object _, .array _ => isFalse (by simp)

def decEqItems : (as bs : List Json) → Decidable (as = bs)
  | [], [] => isTrue rfl
  | a :: as, b :: bs =>
    match decEq a b, decEqItems as bs with
    | isTrue h, isTrue hs => isTrue (by rw [h, hs])
    | isFalse h, _ => isFalse (by simp [h])
    | _, isFalse hs => isFalse (by simp [hs])
  | [], _ :: _ | _ :: _, [] => isFalse (by simp)

def decEqMembers : (as bs : List (String × Json)) → Decidable (as = bs)
  | [], [] => isTrue rfl
  | (j, a) :: as, (k, b) :: bs =>
    if hk : j = k then
      match decEq a b, decEqMembers as bs with
      | isTrue h, isTrue hs => isTrue (by rw [hk, h, hs])
      | isFalse h, _ => isFalse (by simp [h])
      | _, isFalse hs => isFalse (by simp [hs])
    else isFalse (by simp [hk])
  | [], _ :: _ | _ :: _, [] => isFalse (by simp)

end

instance : DecidableEq Json := decEq

/-! ## Parts of a value -/

def string? : Json → Option String
  | .string s => some s
  | _ => none

def bool? : Json → Option Bool
  | .bool b => some b
  | _ => none

def int? : Json → Option Int
  | .int n => some n
  | _ => none

def array? : Json → Option (List Json)
  | .array items => some items
  | _ => none

def object? : Json → Option (List (String × Json))
  | .object members => some members
  | _ => none

def member? (v : Json) (name : String) : Option Json := v.object?.bind fun ms => ms.lookup name

def ofTable (t : Table String Json) : Json := .object t.entries

/-- null in place of a missing value -/
def ofOption (v : Option Json) : Json := v.getD .null

def ofList {α : Type} (f : α → Json) (as : List α) : Json := .array (as.map f)

end Json

end Corkboard
