/-
Edits of the order of a card.

A content call changes the order of its card in one of three ways: it inserts a new block, removes a block, or moves
one. For each there is the order that results from an order, and the group of mutations that makes the edit on a card as
it was read; the group carries the order that was read, so it is refused once that order has changed.
-/
import Corkboard.Content.Handler
import Corkboard.History

namespace Corkboard

/-! ## Errors of content calls -/

inductive CallError where
  | unknownType (tag : String)
  | cardNotFound (card : Uuid)
  | blockNotFound (block : Uuid)
  | content (e : ContentError)
  | history (e : HistoryError)
  deriving DecidableEq

/-- the report; only a failed factory is worth another try -/
def CallError.report : CallError → Report
  | unknownType tag => ⟨"E_UNKNOWN_CONTENT_TYPE", "unknown content type: " ++ tag, false⟩
  | cardNotFound card => ⟨"E_CARD_NOT_FOUND", "card not found: " ++ card.render, false⟩
  | blockNotFound block => ⟨"E_BLOCK_NOT_FOUND", "block not found on card: " ++ block.render, false⟩
  | content .cancelled => ⟨"E_CONTENT_CANCELLED", ContentError.cancelled.message, false⟩
  | content (.failed reason) => ⟨"E_CONTENT_FAILED", (ContentError.failed reason).message, true⟩
  | history e => { e.report with retryable := false }

/-! ## Edits -/

/-- an entry put at an index, at the end when the index is beyond it -/
def insertAt (order : List Uuid) (index : Nat) (id : Uuid) : List Uuid := order.take index ++ id :: order.drop index

inductive OrderEdit where
  | insert (block : Block) (index : Nat)
  | remove (block : Block)
  | move (id : Uuid) (index : Nat)
  deriving DecidableEq

namespace OrderEdit

/-- the order that results; an entry that is not there cannot be moved -/
def order? (e : OrderEdit) (order : List Uuid) : Option (List Uuid) :=
  match e with
  | insert b index => some (insertAt order index b.id)
  | remove b => some (order.filter (· ≠ b.id))
  | move id index => if id ∈ order then some (insertAt (order.erase id) index id) else none

def description : OrderEdit → String
  | insert _ _ => "add content"
  | remove _ => "delete content"
  | move _ _ => "move content"

def target : OrderEdit → Uuid
  | insert b _ => b.id
  | remove b => b.id
  | move id _ => id

/-- the changes that make the edit, given the card as it was read and its new order: a block is inserted before its
entry and removed after it -/
def changes (e : OrderEdit) (c : Card) (order : List Uuid) : List Change :=
  let swap := Change.changeOrder c.id c.contentOrder order
  match e with
  | insert b _ => [.insertBlock b, swap]
  | remove b => [swap, .deleteBlock b]
  | move _ _ => [swap]

/-- the group that makes the edit on a card as it was read, with the new order -/
def group (e : OrderEdit) (c : Card) : Except CallError (List Mutation × List Uuid) :=
  match e.order? c.contentOrder with
  | some order => .ok ((e.changes c order).map fun ch => ⟨ch, e.description⟩, order)
  | none => .error (.blockNotFound e.target)

end OrderEdit

end Corkboard
