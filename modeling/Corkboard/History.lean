/-
Undoable writes and their history.

Every write is a mutation, and a mutation that was applied yields the mutation that takes it back. A group of mutations
is applied whole or not at all and makes one step of the undo stack: its inverses, last first. Undoing a step applies
those inverses, and their own inverses make the step for redo. `applyGroup` never changes the store it was given, so a
refused group leaves no trace.
-/
import Corkboard.Store

namespace Corkboard

/-! ## Reports -/

/-- how an error is told to a client: a stable code, a wording, and whether trying again may help -/
structure Report where
  code : String
  message : String
  retryable : Bool
  deriving DecidableEq

/-! ## Mutations -/

/-- one change of the store -/
inductive Change where
  | insertBlock (block : Block)
  | updateBlock (new old : Block)
  | deleteBlock (block : Block)
  /-- replaces the order only when it still equals `old` -/
  | changeOrder (card : Uuid) (old new : List Uuid)
  | updateCard (new old : Card)
  /-- sets a value, or clears it -/
  | setProperty (card : Uuid) (templateId : String) (old new : Option Json)
  deriving DecidableEq

/-- a change with the description that labels its undo step -/
structure Mutation where
  change : Change
  description : String
  deriving DecidableEq

/-- the store after a change, and the change that takes it back -/
def Change.apply (now : Int) (s : Store) : Change → Except StoreError (Store × Change)
  | .insertBlock b => do
    let s' ← s.insertBlock b
    .ok (s', .deleteBlock b)
  | .updateBlock new _ => do
    let (s', old) ← s.updateBlock now new
    let current ← s'.needBlock new.id
    .ok (s', .updateBlock old current)
  | .deleteBlock b => do
    let (s', removed) ← s.removeBlock b.id
    .ok (s', .insertBlock removed)
  | .changeOrder card old new => do
    let (s', previous) ← s.swapOrder card old new
    .ok (s', .changeOrder card new previous)
  | .updateCard new _ => do
    let (s', old) ← s.updateCard new
    .ok (s', .updateCard old new)
  | .setProperty card templateId _ new => do
    let (s', previous) ← s.setProperty card templateId new
    .ok (s', .setProperty card templateId new previous)

/-- the store after a mutation, and the mutation that takes it back -/
def Mutation.apply (now : Int) (s : Store) (m : Mutation) : Except StoreError (Store × Mutation) := do
  let (s', inverse) ← m.change.apply now s
  .ok (s', ⟨inverse, m.description⟩)

/-- the store after all mutations in turn, and their inverses in front of `inverses`, the last one first -/
def applyFrom (now : Int) (s : Store) (inverses : List Mutation) :
    List Mutation → Except StoreError (Store × List Mutation)
  | [] => .ok (s, inverses)
  | m :: ms => do
    let (s', inverse) ← m.apply now s
    applyFrom now s' (inverse :: inverses) ms

/-- the store after a group, and the group that takes it back -/
def applyGroup (now : Int) (s : Store) (ms : List Mutation) : Except StoreError (Store × List Mutation) :=
  applyFrom now s [] ms

/-! ## History -/

inductive HistoryError where
  | store (e : StoreError)
  | nothingToUndo
  | nothingToRedo
  deriving DecidableEq

def StoreError.code : StoreError → String
  | cardNotFound _ => "E_CARD_NOT_FOUND"
  | blockNotFound _ => "E_BLOCK_NOT_FOUND"
  | duplicateBlock _ => "E_DUPLICATE_BLOCK"
  | staleOrder _ => "E_STALE_ORDER"
  | invalidOrder _ => "E_INVALID_ORDER"

def HistoryError.isStale : HistoryError → Bool
  | .store (.staleOrder _) => true
  | _ => false

/-- the report; only a stale order is worth another try -/
def HistoryError.report (e : HistoryError) : Report :=
  match e with
  | .store s => ⟨s.code, s.message, e.isStale⟩
  | .nothingToUndo => ⟨"E_NOTHING_TO_UNDO", "nothing to undo", false⟩
  | .nothingToRedo => ⟨"E_NOTHING_TO_REDO", "nothing to redo", false⟩

/-- one step of a stack: what to apply, and its label -/
structure UndoStep where
  description : String
  mutations : List Mutation
  deriving DecidableEq

/-- the store with what can be undone and what can be redone, the next step at the head of each stack -/
structure History where
  store : Store
  undos : List UndoStep
  redos : List UndoStep
  deriving DecidableEq

namespace History

def empty : History := ⟨.empty, [], []⟩

/-- a card put in; no step of the history -/
def insertCard (h : History) (c : Card) : History := { h with store := h.store.putCard c }

/-- a group applied as one step under the description of its first mutation; an empty group is no step -/
def commit (now : Int) (h : History) : List Mutation → Except HistoryError History
  | [] => .ok h
  | m :: ms =>
    match applyGroup now h.store (m :: ms) with
    | .ok (store, inverses) => .ok ⟨store, ⟨m.description, inverses⟩ :: h.undos, []⟩
    | .error e => .error (.store e)

/-- the last step taken back, with its description; a step that does not apply stays -/
def undo (now : Int) (h : History) : Except HistoryError (History × String) :=
  match h.undos with
  | [] => .error .nothingToUndo
  | step :: rest =>
    match applyGroup now h.store step.mutations with
    | .ok (store, inverses) => .ok (⟨store, rest, ⟨step.description, inverses⟩ :: h.redos⟩, step.description)
    | .error e => .error (.store e)

/-- the last undone step applied again, with its description; a step that does not apply stays -/
def redo (now : Int) (h : History) : Except HistoryError (History × String) :=
  match h.redos with
  | [] => .error .nothingToRedo
  | step :: rest =>
    match applyGroup now h.store step.mutations with
    | .ok (store, inverses) => .ok (⟨store, ⟨step.description, inverses⟩ :: h.undos, rest⟩, step.description)
    | .error e => .error (.store e)

end History

end Corkboard
