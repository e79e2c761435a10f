/-
Debounced search.

Each query takes the next generation when it is issued. A blank query has no results and goes straight to publishing;
any other waits, is dropped if a newer query was issued meanwhile, and otherwise searches. Results are published only
while the query still is the newest, and the check and the write are one step, so an old search never replaces the
results of a newer one.
-/
import Corkboard.Store
import Corkboard.Text.Blank
import Corkboard.Text.Lowercase
import Corkboard.Timeline

namespace Corkboard

structure SearchResults (ι : Type) where
  query : String
  items : List ι
  deriving DecidableEq

/-- what all queries share: how many were issued, and the newest results -/
structure SearchDesk (ι : Type) where
  generation : Nat
  latest : Option (SearchResults ι)
  deriving DecidableEq

inductive QueryPhase (ι : Type) where
  | issuing (text : String)
  | waiting (generation : Nat) (query : String)
  | searching (generation : Nat) (query : String)
  | publishing (generation : Nat) (query : String) (items : List ι)
  /-- with its results, or superseded -/
  | done (items : Option (List ι))
  deriving DecidableEq

def SearchDesk.new {ι : Type} : SearchDesk ι := ⟨0, none⟩

namespace QueryPhase

variable {ι : Type}

/-- one step of a query; `find` is the search itself -/
def step (find : String → List ι) (d : SearchDesk ι) : QueryPhase ι → SearchDesk ι × QueryPhase ι
  | issuing text =>
    let d' := { d with generation := d.generation + 1 }
    let query := Text.trim text
    (d', if query = "" then publishing d'.generation query [] else waiting d'.generation query)
  | waiting g query => (d, if d.generation = g then searching g query else done none)
  | searching g query => (d, publishing g query (find query))
  | publishing g query items =>
    if d.generation = g then ({ d with latest := some ⟨query, items⟩ }, done (some items)) else (d, done none)
  | done r => (d, done r)

/-- the pause before the next step: the debounce, or the time that the search takes -/
def pause (debounce : Nat) (takes : String → Nat) : QueryPhase ι → Nat
  | waiting _ _ => debounce
  | publishing _ query _ => if query = "" then 0 else takes query
  | _ => 0

end QueryPhase

/-! ## Cards by title -/

/-- the cards whose titles contain the query, the case of letters disregarded, as they are listed -/
def Store.search (s : Store) (query : String) : List Card :=
  s.listed.filter fun c => Text.occursIn (Text.lower query) (Text.lower c.title)

/-! ## A run on the virtual clock -/

/-- the outcome of one query of a run: its results, the time of its end, and the newest results then -/
structure QueryOutcome where
  items : Option (List String)
  time : Nat
  latest : Option (SearchResults String)

/-- what the queries of a run share, and the searches that were begun -/
structure SearchRun where
  desk : SearchDesk String
  searched : List String

namespace SearchRun

/-- a search that answers each query with a hit named after it -/
def hit (query : String) : List String := ["hit:" ++ query]

/-- one turn of a query; a search is noted when it begins -/
def turn (debounce : Nat) (takes : String → Nat) (now _place : Nat) (r : SearchRun) (p : QueryPhase String) :
    SearchRun × Timeline.Turn (QueryPhase String) QueryOutcome :=
  match p with
  | .done items => (r, .done ⟨items, now, r.desk.latest⟩)
  | p =>
    let (desk, p') := p.step hit r.desk
    let searched := match p' with | .searching _ query => r.searched ++ [query] | _ => r.searched
    (⟨desk, searched⟩, .again (p'.pause debounce takes) p')

/-- queries issued at given times: what they share in the end, and the outcome of each -/
def run (debounce : Nat) (takes : String → Nat) (queries : List (Nat × String)) : SearchRun × List QueryOutcome :=
  let (r, es) := Timeline.run (turn debounce takes) (5 * queries.length) ⟨.new, []⟩
    (queries.map fun q => .sleeping 0 q.1 (.issuing q.2))
  (r, es.filterMap fun | .ended _ o => some o | .asleep _ _ => none)

end SearchRun

end Corkboard
