/-
Property types.

A property type shows a stored value as text, reads what a person typed into a value to be stored, and offers
calculations. What is typed is trimmed first, and a blank input clears the property, save that a checkbox stores false
and a multiple selection the empty list.
-/
import Corkboard.Property.Address
import Corkboard.Property.Calculation
import Corkboard.Property.Template
import Corkboard.Registry
import Corkboard.View

namespace Corkboard

inductive PropertyError where
  | unknownType (tag : String)
  | invalidEmail (text : String)
  | invalidUrl (text : String)
  | invalidNumber (text : String)
  | invalidCheckbox (text : String)
  | unknownOption (key : String)
  | unknownUser (key : String)
  | unsupportedCalculation (tag : String) (calculation : Calculation)
  deriving DecidableEq

def PropertyError.message : PropertyError → String
  | unknownType tag => "unknown property type: " ++ tag
  | invalidEmail text => "invalid email address: " ++ text
  | invalidUrl text => "invalid url: " ++ text
  | invalidNumber text => "not a number: " ++ text
  | invalidCheckbox text => "not a checkbox value: " ++ text
  | unknownOption key => "no option named " ++ key
  | unknownUser key => "unknown user: " ++ key
  | unsupportedCalculation tag c => "calculation " ++ c.label ++ " is not available for " ++ tag ++ " properties"

inductive PropertyKind where
  | text
  | number
  | email
  | url
  | checkbox
  | select
  | multiSelect
  | person
  deriving DecidableEq

namespace PropertyKind

def all : List PropertyKind := [text, number, email, url, checkbox, select, multiSelect, person]

def tag : PropertyKind → String
  | text => "text"
  | number => "number"
  | email => "email"
  | url => "url"
  | checkbox => "checkbox"
  | select => "select"
  | multiSelect => "multiSelect"
  | person => "person"

instance : Tagged PropertyKind := ⟨tag⟩

/-- the name in the menu -/
def displayName : PropertyKind → String
  | text => "Text"
  | number => "Number"
  | email => "Email"
  | url => "URL"
  | checkbox => "Checkbox"
  | select => "Select"
  | multiSelect => "Multi select"
  | person => "Person"

def calculations : PropertyKind → List Calculation
  | number => Calculation.numeric
  | checkbox => Calculation.boxes
  | _ => Calculation.common

def supports (k : PropertyKind) (c : Calculation) : Bool := k.calculations.contains c

/-! ## Showing -/

/-- the trimmed text of a string, unless it is blank -/
def nonBlank? (v : Option Json) : Option String := do
  let s := Text.trim (← (← v).string?)
  if s = "" then none else pure s

/-- the label of a stored option, or what is stored when no option answers to it -/
def optionLabel (t : PropertyTemplate) (id : String) : String := ((t.option? id).map (·.label)).getD id

def display? (k : PropertyKind) (v : Option Json) (t : PropertyTemplate) (ms : Members) : Option String :=
  match k with
  | number =>
    match v with
    | some (.int n) => some (Json.int n).render
    | some (.double x) => some (Json.double x).render
    | v => nonBlank? v
  | checkbox => some (if Calculation.isChecked v then "true" else "false")
  | select => (nonBlank? v).map (optionLabel t)
  | multiSelect => do
    let labels := ((← (← v).array?).filterMap Json.string?).map (optionLabel t)
    if labels = [] then none else pure (", ".intercalate labels)
  | person => (nonBlank? v).map fun id => (ms.get? id).getD id
  | text | email | url => nonBlank? v

def render (k : PropertyKind) (v : Option Json) (t : PropertyTemplate) (ms : Members) (mode : ViewMode) : View :=
  match k with
  | checkbox => ⟨mode, .checkbox (Calculation.isChecked v) ""⟩
  | k =>
    match k.display? v t ms with
    | some s => ⟨mode, .text s⟩
    | none => ⟨mode, .empty⟩

/-! ## Reading -/

/-- the stored form of an option's key -/
def optionId (t : PropertyTemplate) (key : String) : Except PropertyError String :=
  match t.option? key with
  | some o => .ok o.id
  | none => .error (.unknownOption key)

/-- the keys between commas, trimmed, the blank ones left out -/
def optionKeys (raw : String) : List String :=
  ((raw.toList.splitOnP (· = ',')).map fun cs => String.ofList (Text.trimChars cs)).filter (· ≠ "")

/-- the identifiers of a list of keys, each once, after those in `ids`; or the first key without an option -/
def optionIds (t : PropertyTemplate) (ids : List String) : List String → Except PropertyError (List String)
  | [] => .ok ids
  | key :: keys => do
    let id ← optionId t key
    optionIds t (if ids.contains id then ids else ids ++ [id]) keys

/-- the truth value of a lower-case word -/
def truth? (s : String) : Option Bool :=
  if s ∈ ["true", "yes", "1", "x"] then some true
  else if s ∈ ["false", "no", "0", ""] then some false
  else none

/-- the value to store for what was typed -/
def parse (k : PropertyKind) (raw : String) (t : PropertyTemplate) (ms : Members) : Except PropertyError Json :=
  let s := Text.trim raw
  let unlessBlank (read : Except PropertyError Json) : Except PropertyError Json := if s = "" then .ok .null else read
  match k with
  | text => unlessBlank (.ok (.string s))
  | number => unlessBlank
    (if (Double.parse? s).any Double.isFinite then .ok (.string s) else .error (.invalidNumber s))
  | email => unlessBlank (if Address.isEmail s.toList then .ok (.string s) else .error (.invalidEmail s))
  | url => unlessBlank (if Address.isLink s.toList then .ok (.string s) else .error (.invalidUrl s))
  | checkbox =>
    let word := String.ofList (s.toList.map Char.toLower)
    match truth? word with
    | some b => .ok (.bool b)
    | none => .error (.invalidCheckbox word)
  | select => unlessBlank ((optionId t s).map .string)
  | multiSelect => (optionIds t [] (optionKeys raw)).map fun ids => .array (ids.map .string)
  | person => unlessBlank (match ms.idOf? s with | some id => .ok (.string id) | none => .error (.unknownUser s))

end PropertyKind

/-! ## The property types of a board -/

/-- the property types of a board -/
abbrev PropertyRegistry := Registry PropertyKind

namespace PropertyRegistry

def builtin : PropertyRegistry := .ofList "property" PropertyKind.all

def kindOf (r : PropertyRegistry) (t : PropertyTemplate) : Except PropertyError PropertyKind :=
  match r.get? t.tag with
  | some k => .ok k
  | none => .error (.unknownType t.tag)

/-- a calculation over one slot for each card, when the template's type offers it -/
def calculate (r : PropertyRegistry) (t : PropertyTemplate) (c : Calculation) (slots : List (Option Json)) :
    Except PropertyError CalculationResult := do
  let k ← r.kindOf t
  if k.supports c then .ok (c.compute slots) else .error (.unsupportedCalculation t.tag c)

end PropertyRegistry

end Corkboard
