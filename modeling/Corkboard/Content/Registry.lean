/-
The content types of a board.

Beside looking types up by tag, the registry matches what a person types: the trigger that a text opens with, by the
policy of the board, the type of a slash command, and whether a text is the strict beginning of some trigger or command,
so that more typing may still complete it.
-/
import Corkboard.Content.Handler

namespace Corkboard

/-- which trigger wins when a text opens with several -/
inductive PrefixPolicy where
  | firstRegistered
  | longestMatch
  deriving DecidableEq

/-- the content types of a board, with their policy -/
structure ContentRegistry where
  types : Registry Handler
  policy : PrefixPolicy

namespace ContentRegistry

def empty (policy : PrefixPolicy) : ContentRegistry := ⟨.empty "content", policy⟩

def builtin (policy : PrefixPolicy) : ContentRegistry := ⟨.ofList "content" Handler.builtins, policy⟩

def register (r : ContentRegistry) (h : Handler) : Except RegistryError ContentRegistry :=
  (r.types.register h).map fun types => { r with types }

def get? (r : ContentRegistry) (tag : String) : Option Handler := r.types.get? tag

def list (r : ContentRegistry) : List Handler := r.types.entries

def opens (text : String) (h : Handler) : Bool := h.trigger.any fun t => t ≠ "" && Text.opensWith t text

def triggerLength (h : Handler) : Nat := (h.trigger.map (·.length)).getD 0

/-- the longest trigger among the matches, the earliest of the longest -/
def longest : List Handler → Option Handler
  | [] => none
  | h :: hs =>
    match longest hs with
    | some b => if triggerLength h < triggerLength b then some b else some h
    | none => some h

/-- the type whose trigger the text opens with -/
def byTrigger? (r : ContentRegistry) (text : String) : Option Handler :=
  let matching := r.list.filter (opens text)
  match r.policy with
  | .firstRegistered => matching.head?
  | .longestMatch => longest matching

/-- the type of a slash command -/
def bySlashCommand? (r : ContentRegistry) (command : String) : Option Handler :=
  r.list.find? fun h => h.slashCommand = some command

/-- the text is the strict beginning of a trigger or of a slash command -/
def isSubPrefix (r : ContentRegistry) (text : String) : Bool :=
  text ≠ "" && r.list.any fun h =>
    [h.trigger, h.slashCommand].any fun o => o.any fun t => Text.opensWith text t && t.length > text.length

end ContentRegistry

end Corkboard
