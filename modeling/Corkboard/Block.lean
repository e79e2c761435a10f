/-
Content blocks.

A block is one piece of a card's body: its identifier, the card and the board it belongs to, a tag that names its
content type, a payload whose form is that type's own affair, and two times in milliseconds. The accessors of `Payload`
read the usual fields of a payload and give an empty answer where the field is missing or of another kind.
-/
import Corkboard.Json.Shape

namespace Corkboard

/-! ## Payloads -/

namespace Payload

/-- the text: a string itself, or the field `value` -/
def text (v : Json) : String :=
  match v.string? with
  | some s => s
  | none => ((v.member? "value").bind Json.string?).getD ""

def checked (v : Json) : Bool := ((v.member? "checked").bind Json.bool?).getD false

def fileId (v : Json) : String := ((v.member? "fileId").bind Json.string?).getD ""

def ofChecked (checked : Bool) (text : String) : Json := .object [("checked", .bool checked), ("value", .string text)]

def ofFile (fileId : String) : Json := .object [("fileId", .string fileId)]

@[simp] theorem text_ofChecked (b : Bool) (s : String) : text (ofChecked b s) = s := rfl

@[simp] theorem checked_ofChecked (b : Bool) (s : String) : checked (ofChecked b s) = b := rfl

@[simp] theorem fileId_ofFile (s : String) : fileId (ofFile s) = s := rfl

end Payload

/-! ## Blocks -/

structure Block where
  id : Uuid
  parentId : Uuid
  rootId : Uuid
  kind : String
  value : Json
  createdAt : Int
  updatedAt : Int
  deriving DecidableEq

namespace Block

/-- a block that belongs to no card yet -/
def fresh (id : Uuid) (now : Int) (rootId : Uuid) (kind : String) (value : Json) : Block :=
  ⟨id, .nil, rootId, kind, value, now, now⟩

/-- the block but for the time of its last change -/
def unstamped (b : Block) : Block := { b with updatedAt := 0 }

instance : Json.Written Block where
  shape := .record [("id", .uuid, .refused), ("parent_id", .uuid, .refused), ("root_id", .uuid, .refused),
    ("type", .text, .refused), ("value", .any, .refused), ("created_at", .integer, .refused),
    ("updated_at", .integer, .refused)]
  toJson b := .object [("id", Json.Written.toJson b.id), ("parent_id", Json.Written.toJson b.parentId),
    ("root_id", Json.Written.toJson b.rootId), ("type", .string b.kind), ("value", b.value),
    ("created_at", .int b.createdAt), ("updated_at", .int b.updatedAt)]
  ofJson? v := do
    pure ⟨← v.field? "id", ← v.field? "parent_id", ← v.field? "root_id", ← v.field? "type", ← v.field? "value",
      ← v.field? "created_at", ← v.field? "updated_at"⟩

end Block

end Corkboard
