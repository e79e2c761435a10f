/-
Sequences of editor calls, and what becomes of the drafts.

An editor is driven by calls in turn: typing, keys, commits and the rest. Some of them hand over a draft, and the drafts
come out in the order of the calls.
-/
import Corkboard.Editor

namespace Corkboard

/-- how an editor is opened -/
inductive Opening where
  /-- on a new block -/
  | blank
  /-- on a payload of a type, and on a block if one is named -/
  | onto (id : Option Uuid) (tag : String) (value : Json)

def Opening.editor (r : ContentRegistry) : Opening → Editor
  | blank => .new
  | onto id tag value => .withType r id tag value

/-- one call of an editor -/
inductive EditorCall where
  | input (text : String)
  | key (k : String)
  | commit
  | cancel
  | slash (line : String)
  | toggle
  | setDraft (value : Json)
  deriving DecidableEq

/-- the draft that an action hands over -/
def EditorAction.saved? : EditorAction → Option Committed
  | .saved d => some d
  | _ => Option.none

def Block.withDraft (b : Block) (d : Committed) : Block := { b with kind := d.tag, value := d.value }

namespace Editor

/-- the editor after a call, and what the call did -/
def perform (r : ContentRegistry) (e : Editor) : EditorCall → Editor × EditorAction
  | .input text => e.input r text
  | .key k => e.key r k
  | .commit => e.commit r
  | .cancel => e.cancel
  | .slash line => e.runSlashCommand r line
  | .toggle => (e.toggle r, .none)
  | .setDraft value => (e.setDraft value, .none)

/-- the editor after calls in turn, and what each of them did -/
def performAll (r : ContentRegistry) (e : Editor) : List EditorCall → Editor × List EditorAction
  | [] => (e, [])
  | c :: cs =>
    let (e', a) := e.perform r c
    let (e'', as) := e'.performAll r cs
    (e'', a :: as)

/-- the drafts that calls in turn hand over -/
def saves (r : ContentRegistry) (e : Editor) (cs : List EditorCall) : List Committed :=
  (e.performAll r cs).2.filterMap EditorAction.saved?

end Editor

end Corkboard
