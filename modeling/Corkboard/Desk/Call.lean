/-
Content calls as processes.

A card is opened through a handle, which carries a lock for the card's order and remembers the newest block that nobody
has claimed. Calls on cards run side by side, and each is a sequence of steps: every step reads or writes the document
at most once, takes or leaves the lock, or sets the remembered block. An edit of the order is made under the lock: the
card is read, the group is built from that reading, and a group that is refused because the order has changed is built
again, three times at most. Undo and redo do not ask for the lock.
-/
import Corkboard.Desk.Document
import Corkboard.Desk.OrderEdit
import Corkboard.Editor

namespace Corkboard

/-! ## Desks -/

/-- an open card; a card may be opened more than once -/
structure Handle where
  card : Uuid
  copy : Nat
  deriving DecidableEq

/-- a document with the cards that are open on it -/
structure Desk (σ : Type) where
  doc : σ
  /-- the call that holds the order lock of a handle -/
  holder : Handle → Option Nat
  /-- the newest block added through a handle that nobody has claimed -/
  newest : Handle → Option Uuid

namespace Desk

variable {σ : Type}

def new (doc : σ) : Desk σ := ⟨doc, fun _ => none, fun _ => none⟩

def setHolder (d : Desk σ) (h : Handle) (who : Option Nat) : Desk σ :=
  { d with holder := fun h' => if h' = h then who else d.holder h' }

def setNewest (d : Desk σ) (h : Handle) (block : Option Uuid) : Desk σ :=
  { d with newest := fun h' => if h' = h then block else d.newest h' }

/-- the newest block claimed, once, by whoever names it -/
def claim (d : Desk σ) (h : Handle) (block : Uuid) : Desk σ × Bool :=
  if d.newest h = some block then (d.setNewest h none, true) else (d, false)

end Desk

/-! ## Calls -/

/-- a content call on one card -/
inductive Call where
  /-- a new block of a type -/
  | add (tag : String) (index : Nat)
  /-- a draft saved: into the block it was opened on, else as a new block -/
  | save (draft : Committed) (index : Nat)
  /-- a list of lines, each entered through the editor -/
  | compose (lines : List String) (index : Nat)
  /-- another payload for a block -/
  | updateValue (id : Uuid) (value : Json)
  | delete (id : Uuid)
  | move (id : Uuid) (index : Nat)

inductive CallAnswer where
  | block (b : Block)
  | blocks (bs : List Block)
  | order (ids : List Uuid)
  deriving DecidableEq

/-- what is still to be done after a block was added: nothing, or the further drafts of a composition, with the blocks
saved so far -/
inductive Sequel where
  | answer
  | compose (saved : List Block) (drafts : List Committed) (index : Nat)
  deriving DecidableEq

/-- where a call stands. What a phase carries was read in an earlier step and may be out of date. -/
inductive Phase where
  /-- about to read the card that gets a new block from a factory -/
  | opening (kind : String) (factory : Factory) (index : Nat)
  /-- waiting for the factory -/
  | making (kind : String) (factory : Factory) (index : Nat) (card : Card)
  /-- about to read the card that gets a draft as a new block -/
  | drafting (kind : String) (value : Json) (index : Nat) (sequel : Sequel)
  /-- about to read the block that is to be deleted -/
  | seeking (id : Uuid)
  /-- about to read the block that gets another payload -/
  | fetching (id : Uuid) (kind : Option String) (value : Json)
  /-- about to write a block read before -/
  | replacing (new old : Block)
  /-- asking for the order lock -/
  | waiting (edit : OrderEdit) (sequel : Sequel)
  /-- holding the lock, about to read the card -/
  | reading (edit : OrderEdit) (sequel : Sequel) (attempt : Nat)
  /-- holding the lock, about to apply the group built from a reading -/
  | writing (edit : OrderEdit) (sequel : Sequel) (attempt : Nat) (card : Card)
  /-- the lock left, about to remember the new block -/
  | noting (block : Block) (sequel : Sequel)
  | done (result : Except CallError CallAnswer)

/-- how often a group is built again after its order had changed -/
def orderRetries : Nat := 3

namespace Phase

/-- a composition with a list of drafts still to save -/
def composing (saved : List Block) (index : Nat) : List Committed → Phase
  | [] => done (.ok (.blocks saved))
  | c :: drafts => drafting c.tag c.value (index + saved.length) (.compose saved drafts index)

def start (r : ContentRegistry) : Call → Phase
  | .add tag index =>
    match r.get? tag with
    | some h => opening h.tag h.factory index
    | none => done (.error (.unknownType tag))
  | .save ⟨some id, tag, value⟩ _ => fetching id (some tag) value
  | .save ⟨none, tag, value⟩ index => drafting tag value index .answer
  | .compose lines index => composing [] index (Editor.enterLines r .new lines)
  | .updateValue id value => fetching id none value
  | .delete id => seeking id
  | .move id index => waiting (.move id index) .answer

/-- where a call goes on after a new block was added -/
def afterBlock (b : Block) : Sequel → Phase
  | .answer => done (.ok (.block b))
  | .compose saved drafts index => composing (saved ++ [b]) index drafts

/-- the time in milliseconds before the next step -/
def pause : Phase → Nat
  | making _ factory _ _ => factory.delay
  | _ => 0

def result? : Phase → Option (Except CallError CallAnswer)
  | done r => some r
  | _ => none

def holdsLock : Phase → Bool
  | reading _ _ _ | writing _ _ _ _ => true
  | _ => false

end Phase

/-- a call in progress: its handle, its name among the calls, and where it stands -/
structure Task where
  handle : Handle
  name : Nat
  phase : Phase

namespace Task

variable {σ : Type}

/-- the card of the call's handle, or its absence as an error -/
def readCard (D : Document σ) (d : Desk σ) (t : Task) : Except CallError Card :=
  match (D.store d.doc).card? t.handle.card with
  | some c => .ok c
  | none => .error (.cardNotFound t.handle.card)

/-- a block of the call's card, or its absence as an error -/
def readOwned (D : Document σ) (d : Desk σ) (t : Task) (id : Uuid) : Except CallError Block :=
  match ((D.store d.doc).block? id).filter fun b => b.parentId = t.handle.card with
  | some b => .ok b
  | none => .error (.blockNotFound id)

/-- the call in another phase, or ended by an error -/
def goOn (t : Task) : Except CallError Phase → Task
  | .ok p => { t with phase := p }
  | .error e => { t with phase := .done (.error e) }

/-- where a call goes on after its edit was written -/
def afterEdit (edit : OrderEdit) (sequel : Sequel) (order : List Uuid) : Phase :=
  match edit with
  | .insert b _ => .noting b sequel
  | .remove b => .done (.ok (.block b))
  | .move _ _ => .done (.ok (.order order))

def step (D : Document σ) (w : Ambient) (d : Desk σ) (t : Task) : Desk σ × Task :=
  match t.phase with
  | .opening kind factory index => (d, t.goOn ((t.readCard D d).map fun c => .making kind factory index c))
  | .making kind factory index card =>
    (d, t.goOn (match factory.make w.id w.now card.rootId kind with
      | .ok b => .ok (.waiting (.insert (b.attachTo card) index) .answer)
      | .error e => .error (.content e)))
  | .drafting kind value index sequel =>
    (d, t.goOn ((t.readCard D d).map fun c =>
      .waiting (.insert ((Block.fresh w.id w.now c.rootId kind value).attachTo c) index) sequel))
  | .seeking id => (d, t.goOn ((t.readOwned D d id).map fun b => .waiting (.remove b) .answer))
  | .fetching id kind value =>
    (d, t.goOn ((t.readOwned D d id).map fun b => .replacing { b with kind := kind.getD b.kind, value := value } b))
  | .replacing new old =>
    match D.apply w.now d.doc ⟨.updateBlock new old, "edit content"⟩ with
    | (doc, .ok ()) => ({ d with doc := doc }, t.goOn (.ok (.done (.ok (.block new)))))
    | (doc, .error e) => ({ d with doc := doc }, t.goOn (.error (.history e)))
  | .waiting edit sequel =>
    if d.holder t.handle = none then (d.setHolder t.handle (some t.name), t.goOn (.ok (.reading edit sequel 0)))
    else (d, t)
  | .reading edit sequel attempt =>
    match t.readCard D d with
    | .ok c =>
      match edit.group c with
      | .ok _ => (d, t.goOn (.ok (.writing edit sequel attempt c)))
      | .error e => (d.setHolder t.handle none, t.goOn (.error e))
    | .error e => (d.setHolder t.handle none, t.goOn (.error e))
  | .writing edit sequel attempt card =>
    match edit.group card with
    | .error e => (d.setHolder t.handle none, t.goOn (.error e))
    | .ok (group, order) =>
      match D.perform w.now d.doc group with
      | (doc, .ok ()) =>
        (({ d with doc := doc } : Desk σ).setHolder t.handle none, t.goOn (.ok (afterEdit edit sequel order)))
      | (doc, .error e) =>
        if e.isStale ∧ attempt < orderRetries then
          ({ d with doc := doc }, t.goOn (.ok (.reading edit sequel (attempt + 1))))
        else (({ d with doc := doc } : Desk σ).setHolder t.handle none, t.goOn (.error (.history e)))
  | .noting b sequel => (d.setNewest t.handle (some b.id), t.goOn (.ok (.afterBlock b sequel)))
  | .done _ => (d, t)

end Task

end Corkboard
