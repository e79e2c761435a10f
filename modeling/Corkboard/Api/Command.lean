/-
Requests to the board.

A request is a method, a target, a content type and a body; the target is a path with an optional query, alone or after
the scheme and authority of an absolute address. `Request.route` turns it into a command or into the status with which
it is refused: first the path and the method are looked up, then the parameters of the path are read, then the query,
then the body.
-/
import Corkboard.Board
import Corkboard.Card
import Corkboard.Web.MediaType
import Corkboard.Web.Percent

namespace Corkboard

structure Request where
  method : String
  /-- path and query, or an absolute address that ends in them -/
  target : String
  contentType : Option String
  body : String

inductive Command where
  | health
  | contentTypes
  | propertyTypes
  | listTemplates
  | putTemplate (template : PropertyTemplate)
  | calculate (templateId : String) (calculation : Calculation)
  | putMember (id name : String)
  | search (text : String)
  | undo
  | redo
  | listCards
  | createCard (title : Option String) (rootId : Option Uuid)
  | getCard (card : Uuid)
  | previewCard (card : Uuid)
  | addContent (card : Uuid) (tag : String) (index : Option Nat)
  | compose (card : Uuid) (lines : List String) (index : Option Nat)
  | updateContent (card block : Uuid) (value : Json)
  | deleteContent (card block : Uuid)
  | moveContent (card block : Uuid) (index : Nat)
  | setProperty (card : Uuid) (templateId value : String)

/-! ## Statuses -/

/-- how a request turned out -/
inductive Status where
  | ok
  | created
  | noContent
  | badRequest
  | notFound
  | methodNotAllowed
  | conflict
  | bodyTooLarge
  | unsupportedMediaType
  | unprocessable
  deriving DecidableEq

def Status.code : Status → Nat
  | ok => 200
  | created => 201
  | noContent => 204
  | badRequest => 400
  | notFound => 404
  | methodNotAllowed => 405
  | conflict => 409
  | bodyTooLarge => 413
  | unsupportedMediaType => 415
  | unprocessable => 422

/-! ## Bodies -/

namespace Body

/-- a required field -/
def required (name : String) (s : Json.Shape) : String × Json.Shape × Json.Absence := (name, s, .refused)

/-- a field that may be absent or null -/
def optional (name : String) (s : Json.Shape) : String × Json.Shape × Json.Absence := (name, .optional s, .null)

def card : Json.Shape := .record [optional "title" .text, optional "root_id" .uuid]

def content : Json.Shape := .record [required "type" .text, optional "index" .natural]

def composition : Json.Shape := .record [required "lines" (.list .text), optional "index" .natural]

def payload : Json.Shape := .record [required "value" .any]

def place : Json.Shape := .record [required "index" .natural]

def input : Json.Shape := .record [required "value" .text]

def member : Json.Shape := .record [required "username" .text]

end Body

namespace Request

/-- a result, or the status of a refusal -/
abbrev Answer (α : Type) := Except Status α

def isSchemeChar (c : Char) : Bool := c.isAlphanum || c = '+' || c = '-' || c = '.' || c = '~'

/-- what follows the authority, which goes from `://` to the path, the query or the end, in an absolute address -/
def afterAuthority? (cs : List Char) : Option (List Char) :=
  match cs.dropWhile isSchemeChar with
  | ':' :: '/' :: '/' :: rest => some (rest.dropWhile fun c => c ≠ '/' && c ≠ '?')
  | _ => none

/-- path and query: the target up to a fragment, after the authority if there is one -/
def resource (r : Request) : List Char :=
  let cs := r.target.toList.takeWhile (· ≠ '#')
  (afterAuthority? cs).getD cs

def path (r : Request) : List Char := r.resource.takeWhile (· ≠ '?')

def query (r : Request) : List (String × String) := Percent.formPairs ((r.resource.dropWhile (· ≠ '?')).drop 1)

/-- the parts of the path between slashes, when it begins with one -/
def segments (r : Request) : Option (List (List Char)) :=
  match r.path with
  | '/' :: cs => some (cs.splitOnP (· = '/'))
  | _ => none

/-! ## Parts of a request -/

/-- a value, or the status when there is none -/
def orStatus {α : Type} (status : Status) : Option α → Answer α
  | some a => .ok a
  | none => .error status

def parameter (cs : List Char) : Answer String := orStatus .badRequest (Percent.decode? cs)

def identifier (cs : List Char) : Answer Uuid := do orStatus .badRequest (Uuid.parse? (← parameter cs))

def values (r : Request) (name : String) : List String := (r.query.filter (·.1 = name)).map (·.2)

/-- the most bytes that a body may have -/
def bodyLimit : Nat := 0x200000

/-- the body as JSON of a shape -/
def json (r : Request) (s : Json.Shape) : Answer Json :=
  if !r.contentType.any MediaType.isJson then .error .unsupportedMediaType
  else if bodyLimit < r.body.utf8ByteSize then .error .bodyTooLarge
  else
    match s.decode r.body with
    | .ok v => .ok v
    | .error .malformed => .error .badRequest
    | .error .misfit => .error .unprocessable

def field {α : Type} [Json.Written α] (v : Json) (name : String) : Answer α := orStatus .unprocessable (v.field? name)

/-- the calculation that the query names, once -/
def calculation (r : Request) : Answer Calculation :=
  match r.values "calculation" with
  | [name] => orStatus .badRequest (Calculation.ofName? name)
  | _ => .error .badRequest

/-- the text that the query searches for, named at most once -/
def searchText (r : Request) : Answer String :=
  match r.values "q" with
  | [] => .ok ""
  | [text] => .ok text
  | _ => .error .badRequest

/-! ## Routes -/

/-- a place on the board that takes requests -/
inductive Place where
  | health
  | contentTypes
  | propertyTypes
  | templates
  | calculate (template : List Char)
  | member (id : List Char)
  | search
  | undo
  | redo
  | cards
  | card (card : List Char)
  | preview (card : List Char)
  | contents (card : List Char)
  | compose (card : List Char)
  | content (card block : List Char)
  | move (card block : List Char)
  | property (card template : List Char)

/-- the place of a path; a parameter at the end is not empty -/
def place? (segments : List (List Char)) : Option Place :=
  let named (names : List String) : Bool := segments = names.map String.toList
  match segments with
  | [_] => if named ["healthz"] then some .health else none
  | [_, _] =>
    if named ["api", "content-types"] then some .contentTypes
    else if named ["api", "property-types"] then some .propertyTypes
    else if named ["api", "templates"] then some .templates
    else if named ["api", "search"] then some .search
    else if named ["api", "undo"] then some .undo
    else if named ["api", "redo"] then some .redo
    else if named ["api", "cards"] then some .cards
    else none
  | [_, _, a] =>
    if a = [] then none
    else if named ["api", "users", .ofList a] then some (.member a)
    else if named ["api", "cards", .ofList a] then some (.card a)
    else none
  | [_, _, a, _] =>
    if named ["api", "templates", .ofList a, "calculate"] then some (.calculate a)
    else if named ["api", "cards", .ofList a, "preview"] then some (.preview a)
    else if named ["api", "cards", .ofList a, "contents"] then some (.contents a)
    else if named ["api", "cards", .ofList a, "compose"] then some (.compose a)
    else none
  | [_, _, a, _, b] =>
    if b = [] then none
    else if named ["api", "cards", .ofList a, "contents", .ofList b] then some (.content a b)
    else if named ["api", "cards", .ofList a, "properties", .ofList b] then some (.property a b)
    else none
  | [_, _, a, _, b, _] =>
    if named ["api", "cards", .ofList a, "contents", .ofList b, "move"] then some (.move a b)
    else none
  | _ => none

/-- the command of a method at a place; HEAD asks like GET -/
def command (r : Request) (p : Place) : Answer Command :=
  let method := if r.method = "HEAD" then "GET" else r.method
  match p, method with
  | .health, "GET" => .ok .health
  | .contentTypes, "GET" => .ok .contentTypes
  | .propertyTypes, "GET" => .ok .propertyTypes
  | .templates, "GET" => .ok .listTemplates
  | .templates, "POST" => do
    let v ← r.json (Json.Written.shape PropertyTemplate)
    .ok (.putTemplate (← orStatus .unprocessable (Json.Written.ofJson? v)))
  | .calculate t, "GET" => do
    let t ← parameter t
    .ok (.calculate t (← r.calculation))
  | .member id, "PUT" => do
    let id ← parameter id
    let v ← r.json Body.member
    .ok (.putMember id (← field v "username"))
  | .search, "GET" => do .ok (.search (← r.searchText))
  | .undo, "POST" => .ok .undo
  | .redo, "POST" => .ok .redo
  | .cards, "GET" => .ok .listCards
  | .cards, "POST" => do
    let v ← r.json Body.card
    .ok (.createCard (← field v "title") (← field v "root_id"))
  | .card c, "GET" => do .ok (.getCard (← identifier c))
  | .preview c, "GET" => do .ok (.previewCard (← identifier c))
  | .contents c, "POST" => do
    let c ← identifier c
    let v ← r.json Body.content
    .ok (.addContent c (← field v "type") (← field v "index"))
  | .compose c, "POST" => do
    let c ← identifier c
    let v ← r.json Body.composition
    .ok (.compose c (← field v "lines") (← field v "index"))
  | .content c b, "PATCH" => do
    let c ← identifier c
    let b ← identifier b
    let v ← r.json Body.payload
    .ok (.updateContent c b (← field v "value"))
  | .content c b, "DELETE" => do
    let c ← identifier c
    .ok (.deleteContent c (← identifier b))
  | .move c b, "POST" => do
    let c ← identifier c
    let b ← identifier b
    let v ← r.json Body.place
    .ok (.moveContent c b (← field v "index"))
  | .property c t, "PUT" => do
    let c ← identifier c
    let t ← parameter t
    let v ← r.json Body.input
    .ok (.setProperty c t (← field v "value"))
  | _, _ => .error .methodNotAllowed

/-- the command of a request, or the status with which it is answered at once. A request for the options of any path is
answered by itself. -/
def route (r : Request) : Answer Command :=
  if r.method = "OPTIONS" then .error .ok
  else
    match r.segments.bind place? with
    | some p => r.command p
    | none => .error .notFound

end Request

end Corkboard
