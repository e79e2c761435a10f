/-
What all cards of a board share besides its types: the property templates, in the order in which they are shown, and the
people.
-/
import Corkboard.Property.Kind

namespace Corkboard

/-- templates and people -/
structure Board where
  templates : List PropertyTemplate
  members : Members
  deriving DecidableEq

namespace Board

def empty : Board := ⟨[], .empty⟩

def template? (b : Board) (id : String) : Option PropertyTemplate := b.templates.find? (·.id = id)

/-- a template in place of the first one with its identifier -/
def replaceFirst (t : PropertyTemplate) : List PropertyTemplate → List PropertyTemplate
  | [] => []
  | u :: us => if u.id = t.id then t :: us else u :: replaceFirst t us

/-- a template put in: where the one with its identifier stands, else at the end -/
def putTemplate (b : Board) (t : PropertyTemplate) : Board :=
  if (b.template? t.id).isSome then { b with templates := replaceFirst t b.templates }
  else { b with templates := b.templates ++ [t] }

/-- a person put in, or renamed -/
def putMember (b : Board) (id name : String) : Board := { b with members := b.members.insert id name }

end Board

end Corkboard
