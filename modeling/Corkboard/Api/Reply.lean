/-
Answers of the board.

A reply says what was found or done; its status and its JSON body follow from it. Errors of every kind are told by their
report, under a status of their own.
-/
import Corkboard.Api.Command
import Corkboard.Desk.Call
import Corkboard.Gallery

namespace Corkboard

/-! ## Errors -/

/-- an error as the interface tells it -/
structure ApiError where
  status : Status
  report : Report
  deriving DecidableEq

def HistoryError.status : HistoryError → Status
  | .store (.cardNotFound _) | .store (.blockNotFound _) => .notFound
  | .store (.duplicateBlock _) | .store (.staleOrder _) | .nothingToUndo | .nothingToRedo => .conflict
  | .store (.invalidOrder _) => .unprocessable

def CallError.status : CallError → Status
  | .unknownType _ => .badRequest
  | .cardNotFound _ | .blockNotFound _ => .notFound
  | .content _ => .unprocessable
  | .history e => e.status

def PropertyError.code : PropertyError → String
  | unknownType _ => "E_UNKNOWN_PROPERTY_TYPE"
  | invalidEmail _ => "E_INVALID_EMAIL"
  | invalidUrl _ => "E_INVALID_URL"
  | invalidNumber _ => "E_INVALID_NUMBER"
  | invalidCheckbox _ => "E_INVALID_CHECKBOX"
  | unknownOption _ => "E_UNKNOWN_OPTION"
  | unknownUser _ => "E_UNKNOWN_USER"
  | unsupportedCalculation _ _ => "E_UNSUPPORTED_CALCULATION"

def PropertyError.report (e : PropertyError) : Report := ⟨e.code, e.message, false⟩

def PropertyError.status : PropertyError → Status
  | unknownType _ | unsupportedCalculation _ _ => .badRequest
  | _ => .unprocessable

namespace ApiError

def ofHistory (e : HistoryError) : ApiError := ⟨e.status, e.report⟩

def ofCall (e : CallError) : ApiError := ⟨e.status, e.report⟩

def ofProperty (e : PropertyError) : ApiError := ⟨e.status, e.report⟩

def templateNotFound (id : String) : ApiError :=
  ⟨.notFound, ⟨"E_TEMPLATE_NOT_FOUND", "template not found: " ++ id, false⟩⟩

end ApiError

def Report.toJson (r : Report) : Json :=
  .object [("error", .string r.code), ("message", .string r.message), ("retryable", .bool r.retryable)]

/-! ## Replies -/

inductive Reply where
  /-- nothing but a status -/
  | bare (status : Status)
  | contentTypes (types : List Handler)
  | propertyTypes (kinds : List PropertyKind)
  | templates (ts : List PropertyTemplate)
  | template (t : PropertyTemplate)
  | result (r : CalculationResult)
  | found (query : String) (cards : List Card)
  | history (description : String)
  | cards (cs : List Card)
  | newCard (c : Card)
  | card (c : Card)
  | shownCard (c : Card) (contents : List RenderedBlock) (properties : List RenderedProperty)
  | preview (p : CardPreview)
  | newBlock (b : Block)
  | newBlocks (bs : List Block)
  | block (b : Block)
  | order (ids : List Uuid)
  | failed (e : ApiError)

namespace Reply

def status : Reply → Status
  | bare s => s
  | newCard _ | newBlock _ | newBlocks _ => .created
  | failed e => e.status
  | _ => .ok

def contentType (h : Handler) : Json :=
  .object [("type", .string h.tag), ("display_name", .string h.displayName), ("icon", .string h.icon),
    ("slash_command", .ofOption (h.slashCommand.map .string)), ("prefix", .ofOption (h.trigger.map .string))]

def propertyType (k : PropertyKind) : Json :=
  .object [("type", .string k.tag), ("display_name", .string k.displayName),
    ("calculations", .ofList Json.Written.toJson k.calculations)]

def body? : Reply → Option Json
  | bare _ => none
  | contentTypes ts => some (.ofList contentType ts)
  | propertyTypes ks => some (.ofList propertyType ks)
  | templates ts => some (Json.Written.toJson ts)
  | template t => some (Json.Written.toJson t)
  | result r => some r.toJson
  | found query cs => some (.object [("query", .string query), ("cards", Json.Written.toJson cs)])
  | history description => some (.object [("description", .string description)])
  | cards cs => some (Json.Written.toJson cs)
  | newCard c | card c => some (Json.Written.toJson c)
  | shownCard c contents properties => some (.object [("card", Json.Written.toJson c),
      ("contents", .ofList RenderedBlock.toJson contents), ("properties", .ofList RenderedProperty.toJson properties)])
  | preview p => some p.toJson
  | newBlock b | block b => some (Json.Written.toJson b)
  | newBlocks bs => some (Json.Written.toJson bs)
  | order ids => some (Json.Written.toJson ids)
  | failed e => some e.report.toJson

end Reply

end Corkboard
