/-
Cards.

A card has a title, a body given by the order of its blocks, and property values under the identifiers of their
templates. The order stands on the card, so moving a block never touches the block.
-/
import Corkboard.Block

namespace Corkboard

structure Card where
  id : Uuid
  rootId : Uuid
  title : String
  contentOrder : List Uuid
  properties : Table String Json
  deriving DecidableEq

namespace Card

/-- a card without body and properties -/
def fresh (id rootId : Uuid) (title : String) : Card := ⟨id, rootId, title, [], .empty⟩

def property? (c : Card) (templateId : String) : Option Json := c.properties.get? templateId

instance : Json.Written Card where
  shape := .record [("id", .uuid, .refused), ("root_id", .uuid, .refused), ("title", .text, .refused),
    ("content_order", .list .uuid, .fill (.array [])), ("properties", .dictionary, .fill (.object []))]
  toJson c := .object [("id", Json.Written.toJson c.id), ("root_id", Json.Written.toJson c.rootId),
    ("title", .string c.title), ("content_order", Json.Written.toJson c.contentOrder),
    ("properties", Json.Written.toJson c.properties)]
  ofJson? v := do
    pure ⟨← v.field? "id", ← v.field? "root_id", ← v.field? "title", ← v.field? "content_order",
      ← v.field? "properties"⟩

end Card

/-- the block as a piece of the card -/
def Block.attachTo (b : Block) (c : Card) : Block := { b with parentId := c.id, rootId := c.rootId }

end Corkboard
