/-
Cards as they are shown.

The body of a card is shown block by block, blocks of unknown types left out, and its properties in the order of the
templates, templates of unknown types left out. A preview shows the first image of a card in place of its body, if it
has one.
-/
import Corkboard.Board
import Corkboard.Content.Registry
import Corkboard.Store

namespace Corkboard

structure RenderedBlock where
  id : Uuid
  tag : String
  view : View
  deriving DecidableEq

structure RenderedProperty where
  templateId : String
  name : String
  view : View
  deriving DecidableEq

/-- a card in a gallery -/
structure CardPreview where
  title : String
  image : Option RenderedBlock
  contents : List RenderedBlock
  properties : List RenderedProperty
  deriving DecidableEq

def RenderedBlock.toJson (b : RenderedBlock) : Json :=
  .object [("id", .string b.id.render), ("type", .string b.tag), ("view", b.view.toJson)]

def RenderedProperty.toJson (p : RenderedProperty) : Json :=
  .object [("template_id", .string p.templateId), ("name", .string p.name), ("view", p.view.toJson)]

def CardPreview.toJson (p : CardPreview) : Json :=
  .object [("title", .string p.title), ("image", .ofOption (p.image.map RenderedBlock.toJson)),
    ("contents", .ofList RenderedBlock.toJson p.contents), ("properties", .ofList RenderedProperty.toJson p.properties)]

namespace Gallery

/-- a block as its type shows it, if the type is known -/
def renderBlock? (r : ContentRegistry) (b : Block) : Option RenderedBlock :=
  (r.get? b.kind).map fun h => ⟨b.id, b.kind, h.display b.value⟩

def renderContents (r : ContentRegistry) (s : Store) (card : Uuid) : List RenderedBlock :=
  (s.contents card).filterMap (renderBlock? r)

/-- a card's value of a template as its type shows it, if the type is known -/
def renderProperty? (r : PropertyRegistry) (ms : Members) (c : Card) (t : PropertyTemplate) : Option RenderedProperty :=
  (r.get? t.tag).map fun k => ⟨t.id, t.name, k.render (c.property? t.id) t ms .display⟩

def renderProperties (r : PropertyRegistry) (b : Board) (c : Card) : List RenderedProperty :=
  b.templates.filterMap (renderProperty? r b.members c)

def preview (content : ContentRegistry) (properties : PropertyRegistry) (s : Store) (b : Board)
    (c : Card) : CardPreview :=
  let rendered := renderContents content s c.id
  let image := rendered.find? (·.tag = "image")
  ⟨c.title, image, if image.isSome then [] else rendered, renderProperties properties b c⟩

end Gallery

end Corkboard
