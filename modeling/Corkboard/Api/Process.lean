/-
Requests as processes.

The board's interface holds the history with the open cards, the shared settings, and the search. Every request is a
process of atomic steps on it, so requests may run side by side: a step reads or writes the document once, or reads or
writes the settings, or is a step of a content call or of the search. What a later step uses of an earlier reading may
be out of date.
-/
import Corkboard.Api.Reply
import Corkboard.Config
import Corkboard.Search

namespace Corkboard

/-! ## The state of the interface -/

/-- what all requests share -/
structure App where
  desk : Desk History
  board : Board
  search : SearchDesk Card

/-- what does not change while the board is served -/
structure AppWorld where
  content : ContentRegistry
  properties : PropertyRegistry
  debounce : Nat

namespace App

def new : App := ⟨.new .empty, .empty, .new⟩

def store (a : App) : Store := a.desk.doc.store

def setHistory (a : App) (h : History) : App := { a with desk := { a.desk with doc := h } }

end App

/-- the served types under the settings -/
def AppWorld.ofConfig (c : Config) : AppWorld := ⟨.builtin c.policy, PropertyRegistry.builtin, c.debounce⟩

/-! ## Phases -/

/-- what a content call is made for, which decides how its block is answered -/
inductive Purpose where
  | adding
  | changing
  | deleting
  deriving DecidableEq

inductive RequestPhase where
  | start (c : Command)
  /-- a content call on an open card -/
  | call (t : Task) (purpose : Purpose)
  /-- a search; the query is kept for the answer -/
  | search (text : String) (p : QueryPhase Card)
  /-- a card was read, its body is next -/
  | showBody (c : Card)
  /-- the body was read, the properties are next -/
  | showProperties (c : Card) (contents : List RenderedBlock)
  /-- a card was read for its preview -/
  | showPreview (c : Card)
  /-- a template was read, the cards are next -/
  | compute (t : PropertyTemplate) (c : Calculation)
  /-- a card was read, the input is next -/
  | parseInput (c : Card) (templateId value : String)
  /-- the input was read, the property is written next -/
  | writeProperty (c : Card) (templateId : String) (v : Option Json)
  /-- the property was written, the card is read again -/
  | readBack (card : Uuid)
  | done (r : Reply)

namespace RequestPhase

def fail (e : ApiError) : RequestPhase := done (.failed e)

def noCard (card : Uuid) : RequestPhase := fail (.ofCall (.cardNotFound card))

/-- the index of a request without one: the end -/
def atEnd : Nat := 0xffffffffffffffff

/-- the reply to a content call -/
def ofResult (purpose : Purpose) : Except CallError CallAnswer → Reply
  | .error e => .failed (.ofCall e)
  | .ok (.block b) =>
    match purpose with
    | .adding => .newBlock b
    | .changing => .block b
    | .deleting => .bare .noContent
  | .ok (.blocks bs) => .newBlocks bs
  | .ok (.order ids) => .order ids

/-- the value to be stored for what was read: null clears -/
def stored (v : Json) : Option Json := if v = .null then none else some v

/-- the time in milliseconds before the next step -/
def pause (w : AppWorld) : RequestPhase → Nat
  | call t _ => t.phase.pause
  | search _ p => p.pause w.debounce fun _ => 0
  | _ => 0

def reply? : RequestPhase → Option Reply
  | done r => some r
  | _ => none

/-- a content call opened on a card that exists; `name` is the request's -/
def openCall (w : AppWorld) (a : App) (name : Nat) (card : Uuid) (purpose : Purpose) (c : Call) :
    RequestPhase :=
  match a.store.card? card with
  | none => noCard card
  | some _ => call ⟨⟨card, 0⟩, name, .start w.content c⟩ purpose

def ofHistory (a : App) : Except HistoryError (History × String) → App × RequestPhase
  | .ok (h, description) => (a.setHistory h, done (.history description))
  | .error e => (a, fail (.ofHistory e))

def begin (w : AppWorld) (m : Ambient) (name : Nat) (a : App) : Command → App × RequestPhase
  | .health => (a, done (.bare .ok))
  | .contentTypes => (a, done (.contentTypes w.content.list))
  | .propertyTypes => (a, done (.propertyTypes w.properties.entries))
  | .listTemplates => (a, done (.templates a.board.templates))
  | .putTemplate t =>
    match w.properties.kindOf t with
    | .ok _ => ({ a with board := a.board.putTemplate t }, done (.template t))
    | .error e => (a, fail (.ofProperty e))
  | .calculate id c =>
    match a.board.template? id with
    | some t => (a, compute t c)
    | none => (a, fail (.templateNotFound id))
  | .putMember id name => ({ a with board := a.board.putMember id name }, done (.bare .noContent))
  | .search text =>
    let (d, p) := (QueryPhase.issuing text).step a.store.search a.search
    ({ a with search := d }, search text p)
  | .undo => ofHistory a (a.desk.doc.undo m.now)
  | .redo => ofHistory a (a.desk.doc.redo m.now)
  | .listCards => (a, done (.cards a.store.listed))
  | .createCard title rootId =>
    let c := Card.fresh m.id (rootId.getD m.rootId) (title.getD "Untitled")
    (a.setHistory (a.desk.doc.insertCard c), done (.newCard c))
  | .getCard card =>
    match a.store.card? card with
    | some c => (a, showBody c)
    | none => (a, noCard card)
  | .previewCard card =>
    match a.store.card? card with
    | some c => (a, showPreview c)
    | none => (a, noCard card)
  | .addContent card tag index => (a, openCall w a name card .adding (.add tag (index.getD atEnd)))
  | .compose card lines index => (a, openCall w a name card .adding (.compose lines (index.getD atEnd)))
  | .updateContent card block value => (a, openCall w a name card .changing (.updateValue block value))
  | .deleteContent card block => (a, openCall w a name card .deleting (.delete block))
  | .moveContent card block index => (a, openCall w a name card .changing (.move block index))
  | .setProperty card templateId value =>
    match a.store.card? card with
    | some c => (a, parseInput c templateId value)
    | none => (a, noCard card)

/-- the value that an input stores, or why it is refused -/
def readInput (w : AppWorld) (b : Board) (templateId value : String) : Except ApiError (Option Json) :=
  match b.template? templateId with
  | none => .error (.templateNotFound templateId)
  | some t =>
    match (w.properties.kindOf t).bind fun k => k.parse value t b.members with
    | .ok v => .ok (stored v)
    | .error e => .error (.ofProperty e)

/-- the phase after a step of a content call -/
def afterCall (purpose : Purpose) (t : Task) : RequestPhase :=
  match t.phase.result? with
  | some r => done (ofResult purpose r)
  | none => call t purpose

def step (w : AppWorld) (m : Ambient) (name : Nat) (a : App) : RequestPhase → App × RequestPhase
  | start c => begin w m name a c
  | call t purpose =>
    let (desk, t') := t.step .plain m a.desk
    ({ a with desk := desk }, afterCall purpose t')
  | search text p =>
    let (d, p') := p.step a.store.search a.search
    ({ a with search := d }, match p' with
      | .done (some items) => done (.found (Text.trim text) items)
      | .done none => done (.bare .noContent)
      | p' => search text p')
  | showBody c => (a, showProperties c (Gallery.renderContents w.content a.store c.id))
  | showProperties c contents => (a, done (.shownCard c contents (Gallery.renderProperties w.properties a.board c)))
  | showPreview c => (a, done (.preview (Gallery.preview w.content w.properties a.store a.board c)))
  | compute t c =>
    match w.properties.calculate t c (a.store.listed.map fun card => card.property? t.id) with
    | .ok r => (a, done (.result r))
    | .error e => (a, fail (.ofProperty e))
  | parseInput c templateId value =>
    match readInput w a.board templateId value with
    | .ok v => (a, writeProperty c templateId v)
    | .error e => (a, fail e)
  | writeProperty c templateId v =>
    match a.desk.doc.commit m.now [⟨.setProperty c.id templateId (c.property? templateId) v, "edit property"⟩] with
    | .ok h => (a.setHistory h, readBack c.id)
    | .error e => (a, fail (.ofHistory e))
  | readBack card =>
    match a.store.card? card with
    | some c => (a, done (.card c))
    | none => (a, noCard card)
  | done r => (a, done r)

end RequestPhase

end Corkboard
