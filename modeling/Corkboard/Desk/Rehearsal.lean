/-
Documents with scripted interference.

To rehearse what happens when someone else writes at the wrong moment, a document can be armed with interferences: one
of them lands just before each write of the kind that it waits for. Such a document takes groups whole, or one mutation
at a time with a step of the history for each, and the latter may refuse every new block.
-/
import Corkboard.Desk.Document

namespace Corkboard

/-- what somebody else does just before a write -/
inductive Interference where
  | undo
  | redo
  /-- the order of every card turned left by one entry -/
  | rotate
  | nothing
  deriving DecidableEq

/-- how a group reaches the history -/
inductive Grouping where
  | atomic
  | oneByOne
  deriving DecidableEq

/-- a history, and the interferences that are still to come -/
structure Rehearsal where
  history : History
  armed : List Interference
  deriving DecidableEq

namespace Rehearsal

/-- a list with its first entry last -/
def rotateLeft : List Uuid → List Uuid
  | [] => []
  | id :: ids => ids ++ [id]

/-- the order of one card turned left, as a step of the history -/
def rotateCard (now : Int) (h : History) (c : Card) : History :=
  (Document.commit now h [⟨.changeOrder c.id c.contentOrder (rotateLeft c.contentOrder), "rotate"⟩]).1

/-- the history after an interference; one that fails has no effect -/
def interfereWith (now : Int) (h : History) : Interference → History
  | .undo => match h.undo now with | .ok (h', _) => h' | .error _ => h
  | .redo => match h.redo now with | .ok (h', _) => h' | .error _ => h
  | .rotate => h.store.listed.foldl (rotateCard now) h
  | .nothing => h

/-- the next interference, if one is armed -/
def interfere (now : Int) (r : Rehearsal) : Rehearsal :=
  match r.armed with
  | [] => r
  | i :: is => ⟨interfereWith now r.history i, is⟩

/-- a group committed to the history -/
def commit (now : Int) (r : Rehearsal) (ms : List Mutation) : Rehearsal × Except HistoryError Unit :=
  let (h, e) := Document.commit now r.history ms
  ({ r with history := h }, e)

/-- one mutation by itself, with an interference in front of a change of order -/
def applyOne (refuseInserts : Bool) (now : Int) (r : Rehearsal) (m : Mutation) : Rehearsal × Except HistoryError Unit :=
  match m.change with
  | .insertBlock b => if refuseInserts then (r, .error (.store (.duplicateBlock b.id))) else r.commit now [m]
  | .changeOrder _ _ _ => (r.interfere now).commit now [m]
  | _ => r.commit now [m]

/-- mutations one after the other up to the first that is refused -/
def applyAll (refuseInserts : Bool) (now : Int) (r : Rehearsal) : List Mutation → Rehearsal × Except HistoryError Unit
  | [] => (r, .ok ())
  | m :: ms =>
    match r.applyOne refuseInserts now m with
    | (r', .ok ()) => r'.applyAll refuseInserts now ms
    | (r', .error e) => (r', .error e)

end Rehearsal

/-- a document with interferences: in front of each group when groups are taken whole, else in front of each change of
order -/
def Document.rehearsed (grouping : Grouping) (refuseInserts : Bool) : Document Rehearsal where
  store r := r.history.store
  apply now r m :=
    match grouping with
    | .atomic => r.commit now [m]
    | .oneByOne => r.applyOne refuseInserts now m
  perform now r ms :=
    match grouping with
    | .atomic => (r.interfere now).commit now ms
    | .oneByOne => r.applyAll refuseInserts now ms

end Corkboard
