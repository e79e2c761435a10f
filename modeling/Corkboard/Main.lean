/-
The board as a program.

Settings come from the environment, and a variable that does not fit ends the program. Each line of the input is a
request: an object with the strings `method` and `path`, and optionally `content_type` and `body`. It is answered by one
line with `status` and `body`. Requests are served one after the other, so no time passes during one.
-/
import Std.Time.DateTime.Timestamp
import Corkboard.Api.Service

namespace Corkboard.Main

/-! ## Lines -/

def request? (line : String) : Option Request := do
  let v ← (Json.parse line).toOption
  let text (name : String) : Option String := (v.member? name).bind Json.string?
  pure ⟨← text "method", ← text "path", text "content_type", (text "body").getD ""⟩

def line (r : Response) : String :=
  (Json.object [("status", .int r.status.code), ("body", .ofOption r.body)]).render

/-- the response to a line that is no request -/
def refusal : Response := ⟨.badRequest, none⟩

/-- what the world supplies: the time, and identifiers counted up from a random start -/
def supply (now : Int) (start turn : Nat) : Ambient :=
  ⟨now, .version4 (.ofNat 128 (start + 2 * turn)), .version4 (.ofNat 128 (start + 2 * turn + 1))⟩

def answer (w : AppWorld) (now : Int) (start : Nat) (s : Service) (text : String) : Service × Response :=
  match request? text with
  | none => (s, refusal)
  | some r =>
    let (s, r) := s.request w (supply now start) r
    (s, r.getD refusal)

/-! ## Input and output -/

def settings : IO (Except ConfigError Config) := do
  let values ← Config.variableNames.mapM fun name => do pure (name, ← IO.getEnv name)
  pure (Config.ofEnvironment fun name => (values.lookup name).join)

/-- lines answered until the input ends -/
partial def serve (w : AppWorld) (start : Nat) (input output : IO.FS.Stream) (s : Service) : IO Unit := do
  let text ← input.getLine
  if text.isEmpty then pure ()
  else
    let now ← Std.Time.Timestamp.now
    let (s, r) := answer w now.toMillisecondsSinceUnixEpoch.toInt start s text
    output.putStrLn (line r)
    output.flush
    serve w start input output s

end Corkboard.Main

def main : IO UInt32 := do
  match ← Corkboard.Main.settings with
  | .error e =>
    IO.eprintln e.report.message
    pure 1
  | .ok c =>
    let start ← IO.rand 0 0xffffffffffffffffffffffffffffffff
    Corkboard.Main.serve (.ofConfig c) start (← IO.getStdin) (← IO.getStdout) .new
    pure 0
