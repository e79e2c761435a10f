/-
The editor of one block.

A new block starts as free text at the root. Typing a trigger or running a slash command selects a type; any other text
that cannot become a trigger or a command falls to the plain text type. From then on the type's handler owns the draft,
and a commit hands the draft over to be saved. After a commit the editor goes on with the type that follows, or returns
to the root.
-/
import Corkboard.Content.Registry

namespace Corkboard

inductive EditorState where
  /-- free text, no type selected -/
  | root (text : String)
  /-- a draft of a type -/
  | typed (tag : String) (draft : Json)
  deriving DecidableEq

/-- a draft handed over to be saved; `id` names the block that was opened, if one was -/
structure Committed where
  id : Option Uuid
  tag : String
  value : Json
  deriving DecidableEq

inductive EditorAction where
  | none
  | typeChanged (tag : String)
  | saved (committed : Committed)
  | cancelled
  | unknownCommand (command : String)
  deriving DecidableEq

/-- an editor: the block it was opened on, if any, and where it stands -/
structure Editor where
  id : Option Uuid
  state : EditorState
  deriving DecidableEq

namespace Editor

def new : Editor := ⟨none, .root ""⟩

/-- an editor on a payload of a type; on an unknown type it starts at the root -/
def withType (r : ContentRegistry) (id : Option Uuid) (tag : String) (value : Json) : Editor :=
  match r.get? tag with
  | some h => ⟨id, .typed h.tag value⟩
  | none => ⟨id, .root ""⟩

def currentType (e : Editor) : Option String :=
  match e.state with
  | .root _ => none
  | .typed tag _ => some tag

/-- what the selected type shows of the draft -/
def view (r : ContentRegistry) (e : Editor) : Option View :=
  match e.state with
  | .root _ => none
  | .typed tag draft => (r.get? tag).map fun h => h.edit draft

/-- the text opens with a slash -/
def isCommandLine (text : String) : Bool := text.toList.head? = some '/'

/-- the editor with a type selected and its draft started from a text -/
def enterType (e : Editor) (h : Handler) (seed : String) : Editor × EditorAction :=
  ({ e with state := .typed h.tag (h.initialValue seed) }, .typeChanged h.tag)

/-- the text after a type's trigger -/
def seedOf (h : Handler) (text : String) : String :=
  ((h.trigger.bind fun t => Text.dropOpening? t text).getD "")

/-- the plain text type, for a text that neither is nor can become a trigger or a command -/
def fallback? (r : ContentRegistry) (text : String) : Option Handler :=
  if text ≠ "" ∧ !isCommandLine text ∧ !r.isSubPrefix text then r.get? "text" else none

/-- free text at the root: a trigger or the plain text type takes it, or it stays -/
def resolveRoot (r : ContentRegistry) (e : Editor) (text : String) : Editor × EditorAction :=
  match r.byTrigger? text with
  | some h => e.enterType h (seedOf h text)
  | none =>
    match fallback? r text with
    | some h => e.enterType h text
    | none => ({ e with state := .root text }, .none)

/-- the whole text now in the input -/
def input (r : ContentRegistry) (e : Editor) (text : String) : Editor × EditorAction :=
  match e.state with
  | .root _ => e.resolveRoot r text
  | .typed tag draft =>
    match r.get? tag with
    | some h => ({ e with state := .typed tag (h.changeText draft text) }, .none)
    | none => (e, .none)

def setDraft (e : Editor) (value : Json) : Editor :=
  match e.state with
  | .root _ => e
  | .typed tag _ => { e with state := .typed tag value }

/-- the type's flag flipped, if it has one -/
def toggle (r : ContentRegistry) (e : Editor) : Editor :=
  match e.state with
  | .root _ => e
  | .typed tag draft =>
    match (r.get? tag).bind fun h => h.toggle draft with
    | some next => { e with state := .typed tag next }
    | none => e

/-- the state after a draft of a type was handed over: an empty draft of the type that follows, or the root -/
def afterCommit (r : ContentRegistry) (tag : String) : EditorState :=
  match ((r.get? tag).bind fun h => h.nextType).bind r.get? with
  | some next => .typed next.tag (next.initialValue "")
  | none => .root ""

def commit (r : ContentRegistry) (e : Editor) : Editor × EditorAction :=
  match e.state with
  | .root _ => (e, .none)
  | .typed tag draft => ({ e with state := afterCommit r tag }, .saved ⟨e.id, tag, draft⟩)

/-- the draft or the text dropped -/
def cancel (e : Editor) : Editor × EditorAction :=
  ({ e with state := .root "" }, match e.state with | .root _ => .none | .typed _ _ => .cancelled)

/-- a command line: its first word selects a type, the other words start the draft -/
def runSlashCommand (r : ContentRegistry) (e : Editor) (line : String) : Editor × EditorAction :=
  let ws := Text.words line
  let command := ws.head?.getD ""
  match r.bySlashCommand? command with
  | some h => e.enterType h (" ".intercalate ws.tail)
  | none => (e, .unknownCommand command)

def key (r : ContentRegistry) (e : Editor) (k : String) : Editor × EditorAction :=
  match e.state with
  | .root text => if k = Key.enter ∧ isCommandLine text then e.runSlashCommand r text else (e, .none)
  | .typed tag draft =>
    match r.get? tag with
    | none => (e, .none)
    | some h =>
      match h.onKey draft k with
      | .proceed => (e, .none)
      | .commit => e.commit r
      | .cancel => e.cancel

/-- a text typed character by character until a type is selected: the growing beginnings of `rest` after `typed` -/
def typeOn (r : ContentRegistry) (e : Editor) (typed : List Char) : List Char → Editor × List EditorAction
  | [] => (e, [])
  | c :: rest =>
    if e.currentType.isSome then (e, [])
    else
      let now := typed ++ [c]
      let (e', a) := e.input r (.ofList now)
      let (e'', as) := e'.typeOn r now rest
      (e'', a :: as)

def typeText (r : ContentRegistry) (e : Editor) (text : String) : Editor × List EditorAction :=
  e.typeOn r [] text.toList

/-! ## Lines to blocks -/

def rootText? (e : Editor) : Option String :=
  match e.state with
  | .root text => some text
  | .typed _ _ => none

/-- one line entered into an editor that may still hold something of the line before: what is left, and the draft it
gives -/
def enterLine (r : ContentRegistry) (e : Editor) (line : String) : Editor × Option Committed :=
  if Text.isBlank line then (e, none)
  else
    let e := (e.cancel.1.input r line).1
    let (e, a) := if e.rootText?.any isCommandLine then e.key r Key.enter else (e, .none)
    match a with
    | .unknownCommand _ => (e, none)
    | _ =>
      match e.commit r with
      | (e, .saved c) => (e, some c)
      | (e, _) => (e, none)

/-- the drafts that a list of lines gives, through one editor -/
def enterLines (r : ContentRegistry) : Editor → List String → List Committed
  | _, [] => []
  | e, line :: lines =>
    let (e, c) := e.enterLine r line
    c.toList ++ enterLines r e lines

end Editor

end Corkboard
