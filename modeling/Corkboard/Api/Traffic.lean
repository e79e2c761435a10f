/-
Requests in any order.

Traffic is the state of the interface with all requests that have arrived, each where it stands. A request arrives or
takes one of its steps, and these mix in any order; a clock or a service decides on one such order. Along the way the
traffic keeps what the requests have done to the document, read off the phases before and after a step.
-/
import Corkboard.Api.Process
import Corkboard.Snapshots

namespace Corkboard

namespace RequestPhase

/-- the next step writes to the document -/
def writes : RequestPhase → Bool
  | call t _ =>
    match t.phase with
    | .replacing _ _ | .writing _ _ _ _ => true
    | _ => false
  | writeProperty _ _ _ => true
  | _ => false

/-- the request has failed, or its content call reads the card again -/
def turnedBack : RequestPhase → Bool
  | done (.failed _) => true
  | call t _ =>
    match t.phase with
    | .reading _ _ _ => true
    | _ => false
  | _ => false

/-- what a step from one phase to another has done to the document, which now holds the store -/
def deed? (s : Store) : RequestPhase → RequestPhase → Option Deed
  | start .undo, done (.history _) => some .undid
  | start .redo, done (.history _) => some .redid
  | start (.createCard _ _), done (.newCard c) => some (.created c)
  | p, p' => if p.writes && !p'.turnedBack then some (.wrote s) else none

end RequestPhase

/-- a request that has arrived, and where it stands -/
structure Asked where
  command : Command
  phase : RequestPhase

/-- the interface with all requests that have arrived -/
structure Traffic where
  app : App
  requests : List Asked
  /-- what was done to the document, each deed with the place of its request -/
  log : List (Nat × Deed)

inductive Traffic.Event where
  | arrive (c : Command)
  /-- one step of the request at a place, with what the world supplies to it -/
  | step (place : Nat) (m : Ambient)

namespace Traffic

def new : Traffic := ⟨.new, [], []⟩

def history (t : Traffic) : History := t.app.desk.doc

def deeds (t : Traffic) : List Deed := t.log.map (·.2)

/-- how many groups the request at a place has committed -/
def written (t : Traffic) (place : Nat) : Nat := t.log.countP fun e => e.1 = place && e.2.isWrite

def take (w : AppWorld) (t : Traffic) : Event → Traffic
  | .arrive c => { t with requests := t.requests ++ [⟨c, .start c⟩] }
  | .step place m =>
    match t.requests[place]? with
    | some r =>
      let (app, phase) := r.phase.step w m place t.app
      ⟨app, t.requests.set place { r with phase := phase },
        t.log ++ ((RequestPhase.deed? app.store r.phase phase).map fun d => (place, d)).toList⟩
    | none => t

def run (w : AppWorld) (t : Traffic) (es : List Event) : Traffic := es.foldl (take w) t

/-- the identifier that the world supplies -/
def Event.id? : Event → Option Uuid
  | arrive _ => none
  | step _ m => some m.id

/-- no identifier is supplied twice -/
def Fresh (es : List Event) : Prop := (es.filterMap Event.id?).Nodup

instance (es : List Event) : Decidable (Fresh es) := inferInstanceAs (Decidable (List.Nodup _))

end Traffic

end Corkboard
