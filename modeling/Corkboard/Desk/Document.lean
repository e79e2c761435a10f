/-
What content calls read and write.

A document holds a store and takes mutations one at a time or in groups. The plain document is a history: it takes a
group whole or not at all. Other documents may take a group differently, and may refuse it after a part of it was
applied, so a write gives back the document in either case.
-/
import Corkboard.History

namespace Corkboard

/-- what the world supplies to one step: the time, and identifiers that were never used -/
structure Ambient where
  now : Int
  id : Uuid
  rootId : Uuid

/-- how a document of type `σ` is read and written -/
structure Document (σ : Type) where
  store : σ → Store
  /-- one mutation by itself -/
  apply : Int → σ → Mutation → σ × Except HistoryError Unit
  /-- a group of mutations -/
  perform : Int → σ → List Mutation → σ × Except HistoryError Unit

namespace Document

/-- a group committed to a history; a refused group leaves it as it was -/
def commit (now : Int) (h : History) (ms : List Mutation) : History × Except HistoryError Unit :=
  match h.commit now ms with
  | .ok h' => (h', .ok ())
  | .error e => (h, .error e)

def plain : Document History where
  store h := h.store
  apply now h m := commit now h [m]
  perform := commit

end Document

end Corkboard
