/-
Calls side by side.

A floor is a desk on a history with all calls that were made on it, through one handle or through several. A call in
progress takes one step at a time, in any order with the steps of other calls and with what others do to the history:
undo, redo, new cards, and groups that they commit. Every call keeps the history before and after each of its own steps.
-/
import Corkboard.Desk.Call

namespace Corkboard

/-- a call that was made, where it stands, and the history before and after each step it took -/
structure Errand where
  call : Call
  task : Task
  turns : List (History × History)

namespace Errand

def succeeded (e : Errand) : Bool :=
  match e.task.phase with
  | .done (.ok _) => true
  | _ => false

def stepped (e : Errand) (w : Ambient) (d : Desk History) : Errand :=
  ⟨e.call, (e.task.step .plain w d).2, e.turns ++ [(d.doc, (e.task.step .plain w d).1.doc)]⟩

end Errand

/-- a desk with all calls made on it -/
structure Floor where
  desk : Desk History
  errands : List Errand

inductive Floor.Move where
  /-- a call is made -/
  | call (handle : Handle) (c : Call)
  /-- one step of the call at a place -/
  | step (place : Nat) (w : Ambient)
  | undo (now : Int)
  | redo (now : Int)
  | insertCard (card : Card)
  /-- a group committed by someone else, such as the write of a property -/
  | perform (now : Int) (group : List Mutation)

namespace Floor

def new (h : History) : Floor := ⟨.new h, []⟩

def history (f : Floor) : History := f.desk.doc

def setHistory (f : Floor) (h : History) : Floor := { f with desk := { f.desk with doc := h } }

/-- the floor after a step of the history, if it was taken -/
def ofStep (f : Floor) : Except HistoryError (History × String) → Floor
  | .ok (h, _) => f.setHistory h
  | .error _ => f

def take (r : ContentRegistry) (f : Floor) : Move → Floor
  | .call handle c => { f with errands := f.errands ++ [⟨c, ⟨handle, f.errands.length, .start r c⟩, []⟩] }
  | .step place w =>
    match f.errands[place]? with
    | some e =>
      let (desk, task) := e.task.step .plain w f.desk
      ⟨desk, f.errands.set place ⟨e.call, task, e.turns ++ [(f.history, desk.doc)]⟩⟩
    | none => f
  | .undo now => f.ofStep (f.history.undo now)
  | .redo now => f.ofStep (f.history.redo now)
  | .insertCard c => f.setHistory (f.history.insertCard c)
  | .perform now group => f.setHistory (Document.commit now f.history group).1

theorem take_step (r : ContentRegistry) {f : Floor} {place : Nat} {e : Errand} (he : f.errands[place]? = some e)
    (w : Ambient) :
    f.take r (.step place w) = ⟨(e.task.step .plain w f.desk).1, f.errands.set place (e.stepped w f.desk)⟩ := by
  simp only [take, he]
  rfl

def run (r : ContentRegistry) (f : Floor) (ms : List Move) : Floor := ms.foldl (take r) f

/-- a call made and taken to its end with nothing between its steps; six steps are enough for any call but a
composition -/
def complete (r : ContentRegistry) (f : Floor) (w : Ambient) (handle : Handle) (c : Call) : Floor :=
  f.run r (.call handle c :: List.replicate 6 (.step f.errands.length w))

/-- calls one after the other; `w` is what the world supplies to the call at a place -/
def completeAll (r : ContentRegistry) (w : Nat → Ambient) (f : Floor) (cs : List (Handle × Call)) : Floor :=
  cs.foldl (fun f c => f.complete r (w f.errands.length) c.1 c.2) f

end Floor

end Corkboard
