/-
Serving requests.

A service takes requests one at a time, or several side by side on a virtual clock, each after a pause of its own. A
request that is not routed is answered at once by its status. The world supplies the time and fresh identifiers to every
turn.
-/
import Corkboard.Api.Process

namespace Corkboard

/-- what a client gets: a status and a JSON body, if there is one -/
structure Response where
  status : Status
  body : Option Json

/-- the board's interface, and the number of turns taken so far -/
structure Service where
  app : App
  turns : Nat

namespace Service

def new : Service := ⟨.new, 0⟩

/-- the response of a reply; HEAD gets no body -/
def respond (r : Request) (reply : Reply) : Response :=
  ⟨reply.status, if r.method = "HEAD" then none else reply.body?⟩

/-- a request on its way, with where it stands -/
structure Pending where
  request : Request
  phase : RequestPhase

/-- a request as it arrives: routed, or answered by a status -/
def arrive (r : Request) : Pending :=
  ⟨r, match r.route with | .ok c => .start c | .error status => .done (.bare status)⟩

def turn (w : AppWorld) (supply : Nat → Ambient) (_now place : Nat) (s : Service) (p : Pending) :
    Service × Timeline.Turn Pending Response :=
  match p.phase.reply? with
  | some reply => (s, .done (respond p.request reply))
  | none =>
    let (app, phase) := p.phase.step w (supply s.turns) place s.app
    (⟨app, s.turns + 1⟩, .again (phase.pause w) { p with phase := phase })

/-- turns that are enough for one request: a line of a composition takes thirteen at most -/
def turnsOf (p : Pending) : Nat :=
  match p.phase with
  | .start (.compose _ lines _) => 16 * (lines.length + 2)
  | _ => 32

/-- requests side by side, each after its pause; the responses in the order of the requests -/
def parallel (w : AppWorld) (supply : Nat → Ambient) (s : Service) (rs : List (Nat × Request)) :
    Service × List Response :=
  let es := rs.map fun r => (r.1, arrive r.2)
  let fuel := es.foldl (fun n e => n + turnsOf e.2) 0
  let (s', es) := Timeline.run (turn w supply) fuel s (es.map fun e => .sleeping 0 e.1 e.2)
  (s', es.filterMap fun | .ended _ r => some r | .asleep _ _ => none)

/-- one request to its end -/
def request (w : AppWorld) (supply : Nat → Ambient) (s : Service) (r : Request) : Service × Option Response :=
  let (s', rs) := s.parallel w supply [(0, r)]
  (s', rs.head?)

end Service

end Corkboard
