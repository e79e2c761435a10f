/-
What a reader of a card is shown.

A view says what to show and does not draw: a node, and whether it is shown for reading or for editing. `View.plain` is
its form as plain text.
-/
import Corkboard.Json.Shape

namespace Corkboard

/-- shown for reading, or for editing -/
inductive ViewMode where
  | display
  | edit
  deriving DecidableEq

inductive Node where
  | text (text : String)
  | checkbox (checked : Bool) (label : String)
  | image (fileId : String)
  | divider
  | empty
  deriving DecidableEq

/-- a node in a mode -/
structure View where
  mode : ViewMode
  node : Node
  deriving DecidableEq

def ViewMode.name : ViewMode → String
  | .display => "display"
  | .edit => "edit"

namespace View

def plain (v : View) : String :=
  match v.node with
  | .text t => t
  | .checkbox true label => "[x] " ++ label
  | .checkbox false label => "[ ] " ++ label
  | .image fileId => "![image](" ++ fileId ++ ")"
  | .divider => "---"
  | .empty => ""

/-- the written form: the mode and the fields of the node side by side -/
def toJson (v : View) : Json :=
  let mode : String × Json := ("mode", .string v.mode.name)
  match v.node with
  | .text t => .object [mode, ("node", .string "text"), ("text", .string t)]
  | .checkbox checked label =>
    .object [mode, ("node", .string "checkbox"), ("checked", .bool checked), ("label", .string label)]
  | .image fileId => .object [mode, ("node", .string "image"), ("file_id", .string fileId)]
  | .divider => .object [mode, ("node", .string "divider")]
  | .empty => .object [mode, ("node", .string "empty")]

end View

end Corkboard
