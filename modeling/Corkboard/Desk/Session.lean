/-
Sessions on a desk.

A session is a list of commands on one desk whose document is rehearsed: commands of the document, of the history and of
open cards. Each is carried out to its end before the next, or several run side by side on a virtual clock, each after a
pause of its own. The world supplies the time and fresh identifiers to every turn.
-/
import Corkboard.Desk.Call
import Corkboard.Desk.Rehearsal
import Corkboard.Timeline

namespace Corkboard

/-! ## Commands and answers -/

inductive DeskCommand where
  | insertCard (card : Card)
  | apply (mutation : Mutation)
  | perform (group : List Mutation)
  | undo
  | redo
  | getCard (id : Uuid)
  | getBlock (id : Uuid)
  | listCards
  /-- the card of a handle; its absence is an error -/
  | readCard (handle : Handle)
  | call (handle : Handle) (call : Call)
  | newest (handle : Handle)
  | claim (handle : Handle) (block : Uuid)
  | arm (interferences : List Interference)

inductive DeskAnswer where
  | nothing
  | description (text : String)
  | card (card : Option Card)
  | block (block : Option Block)
  | cards (cards : List Card)
  | answer (a : CallAnswer)
  | newest (block : Option Uuid)
  | claimed (yes : Bool)
  | failed (report : Report)

/-- a command on its way: not begun, or a content call in progress -/
inductive DeskProcess where
  | command (c : DeskCommand)
  | task (t : Task)

/-- a session: its desk, and the number of turns taken so far -/
structure Session where
  desk : Desk Rehearsal
  turns : Nat

/-- what a session works with: its content types, its document, and what the world supplies to each turn -/
structure SessionWorld where
  content : ContentRegistry
  document : Document Rehearsal
  supply : Nat → Ambient

namespace Session

def new : Session := ⟨.new ⟨.empty, []⟩, 0⟩

def history (s : Session) : History := s.desk.doc.history

def setHistory (d : Desk Rehearsal) (h : History) : Desk Rehearsal := { d with doc := { d.doc with history := h } }

def ofWrite (d : Desk Rehearsal) : Rehearsal × Except HistoryError Unit → Desk Rehearsal × DeskAnswer
  | (doc, .ok ()) => ({ d with doc := doc }, .nothing)
  | (doc, .error e) => ({ d with doc := doc }, .failed e.report)

def ofHistory (d : Desk Rehearsal) : Except HistoryError (History × String) → Desk Rehearsal × DeskAnswer
  | .ok (h, description) => (setHistory d h, .description description)
  | .error e => (d, .failed e.report)

/-- a command other than a content call, which is one step -/
def once (D : Document Rehearsal) (w : Ambient) (d : Desk Rehearsal) : DeskCommand → Desk Rehearsal × DeskAnswer
  | .insertCard c => (setHistory d (d.doc.history.insertCard c), .nothing)
  | .apply m => ofWrite d (D.apply w.now d.doc m)
  | .perform ms => ofWrite d (D.perform w.now d.doc ms)
  | .undo => ofHistory d (d.doc.history.undo w.now)
  | .redo => ofHistory d (d.doc.history.redo w.now)
  | .getCard id => (d, .card ((D.store d.doc).card? id))
  | .getBlock id => (d, .block ((D.store d.doc).block? id))
  | .listCards => (d, .cards (D.store d.doc).listed)
  | .readCard h =>
    match (D.store d.doc).card? h.card with
    | some c => (d, .card (some c))
    | none => (d, .failed (CallError.cardNotFound h.card).report)
  | .newest h => (d, .newest (d.newest h))
  | .claim h block =>
    let (d, yes) := d.claim h block
    (d, .claimed yes)
  | .arm is => ({ d with doc := { d.doc with armed := d.doc.armed ++ is } }, .nothing)
  | .call _ _ => (d, .nothing)

def ofResult : Except CallError CallAnswer → DeskAnswer
  | .ok a => .answer a
  | .error e => .failed e.report

/-- one turn of a process; a content call takes one step of its own -/
def turn (W : SessionWorld) (_now place : Nat) (s : Session) (p : DeskProcess) :
    Session × Timeline.Turn DeskProcess DeskAnswer :=
  let w := W.supply s.turns
  match p with
  | .command (.call h c) => (s, .again 0 (.task ⟨h, place, .start W.content c⟩))
  | .command c =>
    let (d, a) := once W.document w s.desk c
    (⟨d, s.turns + 1⟩, .done a)
  | .task t =>
    match t.phase.result? with
    | some r => (s, .done (ofResult r))
    | none =>
      let (d, t') := t.step W.document w s.desk
      (⟨d, s.turns + 1⟩, .again t'.phase.pause (.task t'))

/-- turns that are enough for one command: a block takes thirteen at most, its order built again each time included -/
def turnsOf : DeskCommand → Nat
  | .call _ (.compose lines _) => 16 * (lines.length + 1)
  | _ => 16

/-- commands side by side, each after its pause; the answers in the order of the commands -/
def parallel (W : SessionWorld) (s : Session) (cs : List (Nat × DeskCommand)) : Session × List DeskAnswer :=
  let fuel := cs.foldl (fun n c => n + turnsOf c.2) 0
  let (s', es) := Timeline.run (turn W) fuel s (cs.map fun c => .sleeping 0 c.1 (.command c.2))
  (s', es.filterMap fun | .ended _ a => some a | .asleep _ _ => none)

/-- one command to its end -/
def command (W : SessionWorld) (s : Session) (c : DeskCommand) : Session × DeskAnswer :=
  let (s', as) := s.parallel W [(0, c)]
  (s', as.headD .nothing)

end Session

end Corkboard
