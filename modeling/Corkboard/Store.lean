/-
The store of cards and blocks.

Cards and blocks are kept apart; a card's body is its order, each entry looked up among the blocks. An order is
consistent when no entry repeats and every entry names a block of that card. `checkOrder` reports the first violation,
and `swapOrder` replaces an order only when it still is the one that was expected and the new one is consistent.
-/
import Corkboard.Card

namespace Corkboard

/-! ## Faults -/

/-- a violation of the order of a card -/
inductive OrderFault where
  | cardNotFound (card : Uuid)
  | strayEntry (block : Uuid)
  | duplicateEntry (block : Uuid)
  | wrongParent (block card parent : Uuid)
  deriving DecidableEq

def OrderFault.message : OrderFault → String
  | cardNotFound card => "card not found: " ++ card.render
  | strayEntry block => "content order entry " ++ block.render ++ " does not resolve to a block"
  | duplicateEntry block => "content order lists block " ++ block.render ++ " more than once"
  | wrongParent block card parent =>
    "block " ++ block.render ++ " is listed on card " ++ card.render ++ " but belongs to " ++ parent.render

inductive StoreError where
  | cardNotFound (card : Uuid)
  | blockNotFound (block : Uuid)
  | duplicateBlock (block : Uuid)
  /-- the order is no longer the one that was read -/
  | staleOrder (card : Uuid)
  | invalidOrder (fault : OrderFault)
  deriving DecidableEq

def StoreError.message : StoreError → String
  | cardNotFound card => "card not found: " ++ card.render
  | blockNotFound block => "block not found: " ++ block.render
  | duplicateBlock block => "block already exists: " ++ block.render
  | staleOrder card => "content order of card " ++ card.render ++ " changed since it was read"
  | invalidOrder fault => "invalid content order: " ++ fault.message

/-! ## The store -/

/-- cards and blocks, each under its own identifier -/
structure Store where
  cards : Table Uuid Card
  blocks : Table Uuid Block
  cardKeys : ∀ id c, cards.get? id = some c → c.id = id
  blockKeys : ∀ id b, blocks.get? id = some b → b.id = id
  deriving DecidableEq

namespace Store

def empty : Store := ⟨.empty, .empty, by simp, by simp⟩

def card? (s : Store) (id : Uuid) : Option Card := s.cards.get? id

def block? (s : Store) (id : Uuid) : Option Block := s.blocks.get? id

/-- the card of an identifier, or its absence as an error -/
def needCard (s : Store) (id : Uuid) : Except StoreError Card :=
  match s.card? id with
  | some c => .ok c
  | none => .error (.cardNotFound id)

/-- the block of an identifier, or its absence as an error -/
def needBlock (s : Store) (id : Uuid) : Except StoreError Block :=
  match s.block? id with
  | some b => .ok b
  | none => .error (.blockNotFound id)

/-- a card put in, in place of one with the same identifier -/
def putCard (s : Store) (c : Card) : Store where
  cards := s.cards.insert c.id c
  blocks := s.blocks
  cardKeys id c' h := by
    rw [Table.get?_insert] at h
    split at h
    · rename_i hid; cases h; exact hid.symm
    · exact s.cardKeys id c' h
  blockKeys := s.blockKeys

/-- a block put in, in place of one with the same identifier -/
def putBlock (s : Store) (b : Block) : Store where
  cards := s.cards
  blocks := s.blocks.insert b.id b
  cardKeys := s.cardKeys
  blockKeys id b' h := by
    rw [Table.get?_insert] at h
    split at h
    · rename_i hid; cases h; exact hid.symm
    · exact s.blockKeys id b' h

def dropBlock (s : Store) (id : Uuid) : Store where
  cards := s.cards
  blocks := s.blocks.erase id
  cardKeys := s.cardKeys
  blockKeys id' b h := by
    rw [Table.get?_erase] at h
    split at h
    · cases h
    · exact s.blockKeys id' b h

/-- title first, then identifier -/
def listedBefore (a b : Card) : Bool :=
  match compare a.title b.title with
  | .lt => true
  | .gt => false
  | .eq => (compare a.id b.id).isLE

/-- all cards by title and identifier -/
def listed (s : Store) : List Card := s.cards.values.mergeSort listedBefore

/-! ## Cards -/

/-- title and properties replaced, the order left alone; the card as it was -/
def updateCard (s : Store) (c : Card) : Except StoreError (Store × Card) := do
  let old ← s.needCard c.id
  .ok (s.putCard { old with title := c.title, properties := c.properties }, old)

/-- one property set or cleared; its value as it was -/
def setProperty (s : Store) (card : Uuid) (templateId : String) (v : Option Json) :
    Except StoreError (Store × Option Json) := do
  let old ← s.needCard card
  .ok (s.putCard { old with properties := old.properties.alter templateId v }, old.property? templateId)

/-- the order of a card replaced; the order as it was -/
def setOrder (s : Store) (card : Uuid) (order : List Uuid) : Except StoreError (Store × List Uuid) := do
  let old ← s.needCard card
  .ok (s.putCard { old with contentOrder := order }, old.contentOrder)

/-! ## The order of a card -/

/-- the blocks of a card in order, entries that name no block left out -/
def contents (s : Store) (card : Uuid) : List Block :=
  match s.card? card with
  | some c => c.contentOrder.filterMap s.block?
  | none => []

/-- the first violation among the entries of a card's order, after the entries in `seen` -/
def checkEntries (s : Store) (card : Uuid) (seen : List Uuid) : List Uuid → Except OrderFault Unit
  | [] => .ok ()
  | id :: rest =>
    if id ∈ seen then .error (.duplicateEntry id)
    else
      match s.block? id with
      | none => .error (.strayEntry id)
      | some b =>
        if b.parentId = card then s.checkEntries card (id :: seen) rest else .error (.wrongParent id card b.parentId)

/-- the first violation of a card's order -/
def checkOrder (s : Store) (card : Uuid) : Except OrderFault Unit :=
  match s.card? card with
  | none => .error (.cardNotFound card)
  | some c => s.checkEntries c.id [] c.contentOrder

/-- the order of a card replaced in place, if it still is the expected one and the new one is consistent: the new order
is written before it is checked, and the previous one is written back if the check fails; the store as it is left, and
the order as it was -/
def swapOrderInPlace (s : Store) (card : Uuid) (expected order : List Uuid) : Store × Except StoreError (List Uuid) :=
  match s.needCard card with
  | .error e => (s, .error e)
  | .ok c =>
    if c.contentOrder ≠ expected then (s, .error (.staleOrder card))
    else
      match s.setOrder card order with
      | .error e => (s, .error e)
      | .ok (written, previous) =>
        match written.checkOrder card with
        | .ok () => (written, .ok previous)
        | .error fault =>
          match written.setOrder card previous with
          | .ok (restored, _) => (restored, .error (.invalidOrder fault))
          | .error e => (written, .error e)

/-- the store with the order of a card replaced, and the order as it was -/
def swapOrder (s : Store) (card : Uuid) (expected order : List Uuid) : Except StoreError (Store × List Uuid) :=
  match s.swapOrderInPlace card expected order with
  | (s', .ok previous) => .ok (s', previous)
  | (_, .error e) => .error e

/-- an order without repeats whose entries all name blocks of the card -/
structure Consistent (s : Store) (card : Uuid) (order : List Uuid) : Prop where
  nodup : order.Nodup
  owned : ∀ id ∈ order, ∃ b, s.block? id = some b ∧ b.parentId = card

/-! ## Blocks -/

/-- a new block of a card that exists -/
def insertBlock (s : Store) (b : Block) : Except StoreError Store :=
  if s.blocks.contains b.id then .error (.duplicateBlock b.id)
  else if !s.cards.contains b.parentId then .error (.cardNotFound b.parentId)
  else .ok (s.putBlock b)

/-- a block replaced and stamped with the time; the block as it was -/
def updateBlock (s : Store) (now : Int) (b : Block) : Except StoreError (Store × Block) := do
  let old ← s.needBlock b.id
  .ok (s.putBlock { b with updatedAt := now }, old)

def removeBlock (s : Store) (id : Uuid) : Except StoreError (Store × Block) := do
  let old ← s.needBlock id
  .ok (s.dropBlock id, old)

end Store

end Corkboard
