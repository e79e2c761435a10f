/-
Addresses: what passes for an email address and for a link.

Both tests work on the characters of a text. An email address has one mark with a name before it and a host with a dot
after it; a link is a scheme with something after it, or a host of labels with anything behind a slash, a question mark
or a hash.
-/
import Corkboard.Text.Blank

namespace Corkboard.Address

/-- the domain of an address: something before the first dot and after it, and no dot at the end -/
def isDomain (cs : List Char) : Bool :=
  match Text.cutAt ['.'] cs with
  | some (host, rest) => host ≠ [] && rest ≠ [] && rest.getLast? ≠ some '.'
  | none => false

def isEmail (cs : List Char) : Bool :=
  !cs.any Text.isBlankChar &&
    match Text.cutAt ['@'] cs with
    | some (name, domain) => name ≠ [] && !domain.contains '@' && isDomain domain
    | none => false

/-- a character of a scheme: an ASCII letter, an ASCII digit, or a plus -/
def isSchemeChar (c : Char) : Bool := c.isAlphanum || c = '+'

def endsHost (c : Char) : Bool := c = '/' || c = '?' || c = '#'

/-- labels between dots, two or more and none empty -/
def isHost (cs : List Char) : Bool :=
  let labels := cs.splitOnP (· = '.')
  labels.length > 1 && labels.all (· ≠ [])

def isLink (cs : List Char) : Bool :=
  !cs.any Text.isBlankChar &&
    match Text.cutAt [':', '/', '/'] cs with
    | some (scheme, rest) => scheme ≠ [] && scheme.all isSchemeChar && rest ≠ []
    | none => isHost (cs.takeWhile fun c => !endsHost c)

end Corkboard.Address
