/-
Histories of snapshots.

A history can be kept as the stores themselves: the past ones, the present one, and those that were undone. A write puts
the present store behind the new one and forgets the future; undo and redo move along; a new card is added to every
store. This is what a history of inverse changes stands for, though it keeps no stores.
-/
import Corkboard.Store

namespace Corkboard

/-- what was done to a document -/
inductive Deed where
  /-- a group was committed, which left this store -/
  | wrote (store : Store)
  | undid
  | redid
  | created (card : Card)

namespace Deed

def isWrite : Deed → Bool
  | wrote _ => true
  | _ => false

def card? : Deed → Option Card
  | created c => some c
  | _ => none

end Deed

/-- the stores of a history, the nearest one first on either side -/
structure Snapshots where
  past : List Store
  present : Store
  future : List Store

namespace Snapshots

def empty : Snapshots := ⟨[], .empty, []⟩

def push (x : Snapshots) (s : Store) : Snapshots := ⟨x.present :: x.past, s, []⟩

/-- the last past store made present -/
def undo? (x : Snapshots) : Option Snapshots :=
  match x.past with
  | [] => none
  | s :: past => some ⟨past, s, x.present :: x.future⟩

/-- the next future store made present -/
def redo? (x : Snapshots) : Option Snapshots :=
  match x.future with
  | [] => none
  | s :: future => some ⟨x.present :: x.past, s, future⟩

/-- undo, or nothing when there is no past -/
def prev (x : Snapshots) : Snapshots := x.undo?.getD x

def next (x : Snapshots) : Snapshots := x.redo?.getD x

/-- a card put into every store -/
def addCard (x : Snapshots) (c : Card) : Snapshots :=
  ⟨x.past.map (·.putCard c), x.present.putCard c, x.future.map (·.putCard c)⟩

def act (x : Snapshots) : Deed → Snapshots
  | .wrote s => x.push s
  | .undid => x.prev
  | .redid => x.next
  | .created c => x.addCard c

/-- the snapshots after deeds in turn, from an empty store -/
def replay (deeds : List Deed) : Snapshots := deeds.foldl act empty

def all (x : Snapshots) : List Store := x.past ++ x.present :: x.future

/-- the store that undoing everything makes present -/
def oldest (x : Snapshots) : Store := x.past.getLast?.getD x.present

def back (x : Snapshots) : Nat → Snapshots
  | 0 => x
  | n + 1 => x.prev.back n

def forth (x : Snapshots) : Nat → Snapshots
  | 0 => x
  | n + 1 => x.next.forth n

end Snapshots

end Corkboard
