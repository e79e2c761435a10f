/-
Content types.

A content type is described by a handler: its names and triggers, what it shows, how it starts and changes the draft of
a block that is being edited, what the keys do to that draft, and how it makes the payload of a new block. A trigger is
text that selects the type when a new block opens with it. Handlers hold no state.
-/
import Corkboard.View
import Corkboard.Block
import Corkboard.Registry
import Corkboard.Text.Blank

namespace Corkboard

/-! ## Keys -/

/-- the names of the keys that a draft answers to -/
def Key.enter : String := "Enter"

def Key.backspace : String := "Backspace"

def Key.escape : String := "Escape"

/-- what a key does to a draft -/
inductive DraftAction where
  | proceed
  | commit
  | cancel
  deriving DecidableEq

/-- the usual answer to a key: enter commits, escape cancels, and so does backspace on an empty draft -/
def DraftAction.standard (empty : Bool) (key : String) : DraftAction :=
  if key = Key.enter then .commit
  else if key = Key.escape ∨ (key = Key.backspace ∧ empty) then .cancel
  else .proceed

/-- the answer of a type whose empty draft cannot be committed -/
def DraftAction.needsContent (empty : Bool) (key : String) : DraftAction :=
  if key = Key.enter ∧ empty then .proceed else standard empty key

/-! ## Making blocks -/

inductive ContentError where
  | cancelled
  | failed (reason : String)
  deriving DecidableEq

def ContentError.message : ContentError → String
  | .cancelled => "block creation cancelled"
  | .failed reason => "block creation failed: " ++ reason

/-- the making of a new payload: what it takes, in milliseconds, and what comes of it -/
structure Factory where
  delay : Nat
  outcome : Except ContentError Json

/-- the new block of a type, which belongs to no card yet -/
def Factory.make (f : Factory) (id : Uuid) (now : Int) (rootId : Uuid) (kind : String) : Except ContentError Block :=
  f.outcome.map (Block.fresh id now rootId kind)

/-! ## Handlers -/

structure Handler where
  tag : String
  displayName : String
  icon : String
  slashCommand : Option String := none
  trigger : Option String := none
  /-- the type of the draft that follows a committed one -/
  nextType : Option String := none
  /-- the payload that a text starts from -/
  initialValue : String → Json
  display : Json → View
  edit : Json → View
  isEmpty : Json → Bool
  changeText : Json → String → Json
  toggle : Json → Option Json := fun _ => none
  onKey : Json → String → DraftAction := fun v key => .standard (isEmpty v) key
  factory : Factory := ⟨0, .ok (initialValue "")⟩

instance : Tagged Handler := ⟨Handler.tag⟩

namespace Handler

/-! ## The built-in types -/

/-- a paragraph: its payload is its text -/
def text : Handler where
  tag := "text"
  displayName := "Text"
  icon := "text"
  slashCommand := some "/text"
  initialValue := .string
  display v := ⟨.display, .text (Payload.text v)⟩
  edit v := ⟨.edit, .text (Payload.text v)⟩
  isEmpty v := Payload.text v = ""
  changeText _ s := .string s
  onKey v key := .needsContent (Payload.text v = "") key

def checkboxNode (v : Json) : Node := .checkbox (Payload.checked v) (Payload.text v)

/-- a checkbox with a label; another one follows it -/
def checkbox : Handler where
  tag := "checkbox"
  displayName := "Checkbox"
  icon := "check"
  slashCommand := some "/checkbox"
  trigger := some "[ ] "
  nextType := some "checkbox"
  initialValue := Payload.ofChecked false
  display v := ⟨.display, checkboxNode v⟩
  edit v := ⟨.edit, checkboxNode v⟩
  isEmpty v := Payload.text v = ""
  changeText v s := Payload.ofChecked (Payload.checked v) s
  toggle v := some (Payload.ofChecked (!Payload.checked v) (Payload.text v))

/-- a rule across the card -/
def divider : Handler where
  tag := "divider"
  displayName := "Divider"
  icon := "divider"
  slashCommand := some "/divider"
  trigger := some "---"
  initialValue _ := .object []
  display _ := ⟨.display, .divider⟩
  edit _ := ⟨.edit, .divider⟩
  isEmpty _ := true
  changeText v _ := v

/-- an image that refers to a file -/
def image : Handler where
  tag := "image"
  displayName := "Image"
  icon := "image"
  slashCommand := some "/image"
  initialValue s := Payload.ofFile (Text.trim s)
  display v := ⟨.display, .image (Payload.fileId v)⟩
  edit v := ⟨.edit, .image (Payload.fileId v)⟩
  isEmpty v := Payload.fileId v = ""
  changeText _ s := Payload.ofFile (Text.trim s)
  onKey v key := .needsContent (Payload.fileId v = "") key

/-- the built-in types, in the order of the menu -/
def builtins : List Handler := [text, checkbox, divider, image]

/-! ## Stand-ins for types that others add -/

/-- a type that shows its payload as JSON text and keeps whatever is typed as a string -/
def verbatim (tag : String) (slashCommand trigger nextType : Option String) (empty : Bool)
    (factory : Factory) : Handler where
  tag := tag
  displayName := tag
  icon := "stub"
  slashCommand := slashCommand
  trigger := trigger
  nextType := nextType
  initialValue := .string
  display v := ⟨.display, .text v.render⟩
  edit v := ⟨.edit, .text v.render⟩
  isEmpty _ := empty
  changeText _ s := .string s
  factory := factory

/-- a type that shows nothing and keeps every text typed into it -/
def recording (tag : String) : Handler where
  tag := tag
  displayName := tag
  icon := "plain"
  initialValue s := .array [.string s]
  display _ := ⟨.display, .empty⟩
  edit _ := ⟨.edit, .empty⟩
  isEmpty v := v = .null
  changeText v s := .array [v, .string s]

end Handler

end Corkboard
