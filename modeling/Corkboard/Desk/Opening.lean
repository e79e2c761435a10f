/-
Opening a card.

The board keeps the handle of every card that was ever opened, for all requests on the card to share. Whoever opens a
card looks for its handle among the others who look; if there is none, he looks again with the handles to himself, and
makes one if there still is none. In between, others may open the card.
-/
import Corkboard.Desk.Call

namespace Corkboard

structure Handles where
  /-- the handle of a card that was opened -/
  kept : Uuid → Option Handle
  /-- how many handles of a card were made -/
  made : Uuid → Nat

namespace Handles

def new : Handles := ⟨fun _ => none, fun _ => 0⟩

def make (hs : Handles) (card : Uuid) : Handles where
  kept c := if c = card then some ⟨card, hs.made card⟩ else hs.kept c
  made c := if c = card then hs.made c + 1 else hs.made c

/-- the handle of a card, a new one if none is kept -/
def enter (hs : Handles) (card : Uuid) : Handles × Handle :=
  match hs.kept card with
  | some h => (hs, h)
  | none => (hs.make card, ⟨card, hs.made card⟩)

end Handles

/-- where the opening of a card stands -/
inductive HandlePhase where
  | looking
  /-- there was no handle -/
  | entering
  | opened (h : Handle)

def HandlePhase.step (hs : Handles) (card : Uuid) : HandlePhase → Handles × HandlePhase
  | looking =>
    match hs.kept card with
    | some h => (hs, opened h)
    | none => (hs, entering)
  | entering =>
    let (hs, h) := hs.enter card
    (hs, opened h)
  | opened h => (hs, opened h)

/-- the handles with all openings, each of a card -/
structure Openings where
  handles : Handles
  asked : List (Uuid × HandlePhase)

inductive Openings.Event where
  | ask (card : Uuid)
  /-- one step of the opening at a place -/
  | step (place : Nat)

namespace Openings

def new : Openings := ⟨.new, []⟩

def take (o : Openings) : Event → Openings
  | .ask card => { o with asked := o.asked ++ [(card, .looking)] }
  | .step place =>
    match o.asked[place]? with
    | some (card, p) =>
      let (hs, p) := p.step o.handles card
      ⟨hs, o.asked.set place (card, p)⟩
    | none => o

def run (o : Openings) (es : List Event) : Openings := es.foldl take o

end Openings

end Corkboard
