/-
Property templates and the people of a board.

A template names a property, says of which type it is, and lists the options of a selection. An option is found by its
identifier, and failing that by its label without regard to the case of ASCII letters.
-/
import Corkboard.Json.Shape

namespace Corkboard

structure SelectOption where
  id : String
  label : String
  color : String
  deriving DecidableEq

instance : Json.Written SelectOption where
  shape := .record [("id", .text, .refused), ("value", .text, .refused), ("color", .text, .fill (.string ""))]
  toJson o := .object [("id", .string o.id), ("value", .string o.label), ("color", .string o.color)]
  ofJson? v := do pure ⟨← v.field? "id", ← v.field? "value", ← v.field? "color"⟩

/-- a property of the cards of a board -/
structure PropertyTemplate where
  id : String
  name : String
  tag : String
  options : List SelectOption
  deriving DecidableEq

namespace PropertyTemplate

instance : Json.Written PropertyTemplate where
  shape := .record [("id", .text, .refused), ("name", .text, .refused), ("type", .text, .refused),
    ("options", .list (Json.Written.shape SelectOption), .fill (.array []))]
  toJson t := .object [("id", .string t.id), ("name", .string t.name), ("type", .string t.tag),
    ("options", Json.Written.toJson t.options)]
  ofJson? v := do pure ⟨← v.field? "id", ← v.field? "name", ← v.field? "type", ← v.field? "options"⟩

/-- texts that differ at most in the case of ASCII letters -/
def sameIgnoringCase (s t : String) : Bool := s.toList.map Char.toLower = t.toList.map Char.toLower

/-- the option of a key: by identifier, else by label -/
def option? (t : PropertyTemplate) (key : String) : Option SelectOption :=
  (t.options.find? (·.id = key)).or (t.options.find? fun o => sameIgnoringCase o.label key)

end PropertyTemplate

/-- the people of a board: their names by identifier -/
abbrev Members := Table String String

/-- the identifier of a key: the key itself when it is one, else that of a person of this name. Which of several people
of one name is found is not promised; here it is the one with the least identifier. -/
def Members.idOf? (ms : Members) (key : String) : Option String :=
  if ms.contains key then some key else (ms.entries.find? fun e => e.2 = key).map (·.1)

end Corkboard
