/-
Media types that announce JSON.

A media type is two names with a slash between them and optional parameters after a semicolon. It announces JSON when it
is an application type and its subtype, before or after its last plus, is `json`, in any case of letters. A text that is
no media type announces nothing.
-/
namespace Corkboard.MediaType

def isNameChar (c : Char) : Bool := c.isAlphanum || "!#$%&'*+-.^_`|~".toList.contains c

/-- a character inside a quoted value: a printable ASCII character -/
def isQuotedChar (c : Char) : Bool := 31 < c.toNat && c.toNat < 127

/-- where the scan of the parameters stands -/
inductive Scan where
  /-- in front of a name -/
  | space
  /-- inside a name -/
  | name
  /-- in front of a value -/
  | value
  /-- inside a bare value -/
  | bare
  /-- inside a quoted value; a quote in the place of its first character belongs to it -/
  | quoted (first : Bool)
  /-- after a quoted value -/
  | after

/-- the scan after one more character, unless the character is out of place -/
def Scan.step (c : Char) : Scan → Option Scan
  | space => if c = ' ' then some space else if isNameChar c then some name else none
  | name => if c = '=' then some value else if isNameChar c then some name else none
  | value => if c = '"' then some (quoted true) else if isNameChar c then some bare else none
  | bare => if c = ';' then some space else if isNameChar c then some bare else none
  | quoted first =>
    if c = '"' ∧ !first then some after else if isQuotedChar c then some (quoted false) else none
  | after => if c = ';' then some space else if c = ' ' then some after else none

def Scan.mayEnd : Scan → Bool
  | space | value | bare | after => true
  | name | quoted _ => false

/-- the characters after the first semicolon are parameters -/
def areParameters (cs : List Char) : Bool :=
  (cs.foldl (fun s c => s.bind (Scan.step c)) (some .space)).any Scan.mayEnd

def isName (cs : List Char) : Bool := cs ≠ [] && cs.all isNameChar

/-- the two sides of the last plus that is not the first character -/
def cutSuffix (cs : List Char) : List Char × Option (List Char) :=
  let suffix := (cs.reverse.takeWhile (· ≠ '+')).reverse
  if suffix.length + 1 < cs.length then (cs.take (cs.length - suffix.length - 1), some suffix) else (cs, none)

def isJson (text : String) : Bool :=
  let cs := text.toList.map Char.toLower
  let kind := cs.takeWhile (· ≠ '/')
  let rest := (cs.dropWhile (· ≠ '/')).drop 1
  let subtype := rest.takeWhile (· ≠ ';')
  let parameters := (rest.dropWhile (· ≠ ';')).drop 1
  let json := "json".toList
  let (base, suffix) := cutSuffix subtype
  kind = "application".toList && cs.contains '/' && isName subtype && areParameters parameters &&
    (base = json || suffix = some json)

end Corkboard.MediaType
