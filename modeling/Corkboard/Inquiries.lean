/-
Queries side by side.

Any number of queries are asked of one search, and their steps mix in any order: a query is issued, checks after its
pause that it still is the newest, searches, and publishes. What a search finds is up to the world at each step. Along
the way it is kept in which order the queries were issued and which results were published; every query keeps the desk
before and after each of its own steps.
-/
import Corkboard.Search

namespace Corkboard

/-- results that were published, with the place and the generation of their query -/
structure Publication (ι : Type) where
  place : Nat
  generation : Nat
  results : SearchResults ι

/-- a query that was asked, where it stands, and the desk before and after each step it took -/
structure Inquiry (ι : Type) where
  text : String
  phase : QueryPhase ι
  turns : List (SearchDesk ι × SearchDesk ι)

/-- a desk with all queries asked of it -/
structure Inquiries (ι : Type) where
  desk : SearchDesk ι
  asked : List (Inquiry ι)
  /-- the places of the queries that have their generation, in the order in which they took it -/
  issued : List Nat
  published : List (Publication ι)

inductive Inquiries.Event (ι : Type) where
  | ask (text : String)
  /-- one step of the query at a place; `find` is what a search finds at that moment -/
  | step (place : Nat) (find : String → List ι)

namespace QueryPhase

variable {ι : Type}

/-- the next step takes a generation -/
def isIssuing : QueryPhase ι → Bool
  | issuing _ => true
  | _ => false

/-- what the next step publishes: the results of a query that still is the newest -/
def publication? (d : SearchDesk ι) (place : Nat) : QueryPhase ι → Option (Publication ι)
  | publishing g query items => if d.generation = g then some ⟨place, g, ⟨query, items⟩⟩ else none
  | _ => none

def isDone : QueryPhase ι → Bool
  | done _ => true
  | _ => false

end QueryPhase

namespace Inquiries

variable {ι : Type}

def new : Inquiries ι := ⟨.new, [], [], []⟩

/-- the queries after the one at a place took a step to a desk and a phase, with what it published -/
def after (s : Inquiries ι) (place : Nat) (q : Inquiry ι) (desk : SearchDesk ι) (phase : QueryPhase ι)
    (published : Option (Publication ι)) : Inquiries ι where
  desk := desk
  asked := s.asked.set place ⟨q.text, phase, q.turns ++ [(s.desk, desk)]⟩
  issued := s.issued ++ if q.phase.isIssuing then [place] else []
  published := s.published ++ published.toList

def take (s : Inquiries ι) : Event ι → Inquiries ι
  | .ask text => { s with asked := s.asked ++ [⟨text, .issuing text, []⟩] }
  | .step place find =>
    match s.asked[place]? with
    | some q =>
      let (desk, phase) := q.phase.step find s.desk
      s.after place q desk phase (q.phase.publication? s.desk place)
    | none => s

def run (s : Inquiries ι) (es : List (Event ι)) : Inquiries ι := es.foldl take s

end Inquiries

end Corkboard
