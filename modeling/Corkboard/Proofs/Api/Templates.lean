/-
Templates of types that are known.

A template is put in only if the registry has its type, in place of the one with its identifier or at the end. Still
three other requests look its type up again, each with a way out for a type that is not known. Are these ways ever
taken?

- `templates_of_known_types`: never. Templates have identifiers of their own and types that are known, so a card is
  answered with one property for each of them, and only the request for a template of an unknown type is told so.

The invariant is `Board.Typed`, with the template that a calculation has read.
-/
import Corkboard.Proofs.Api.Bodies
import Corkboard.Proofs.Api.Rules

namespace Corkboard

/-! ## Templates of a board -/

def PropertyRegistry.Knows (r : PropertyRegistry) (t : PropertyTemplate) : Prop := (r.get? t.tag).isSome

namespace Board

variable {b b' : Board} {t : PropertyTemplate} {r : PropertyRegistry}

/-- templates have identifiers of their own and types that the registry has -/
structure Typed (r : PropertyRegistry) (b : Board) : Prop where
  distinct : (b.templates.map (·.id)).Nodup
  known : ∀ t ∈ b.templates, r.Knows t

/-- a template was put in: in the place of the one with its identifier, or at the end if there is none -/
def PutsIn (t : PropertyTemplate) (b b' : Board) : Prop :=
  b'.members = b.members ∧
  ((∃ i, (b.templates[i]?).map (·.id) = some t.id ∧ b'.templates = b.templates.set i t) ∨
    ((∀ u ∈ b.templates, u.id ≠ t.id) ∧ b'.templates = b.templates ++ [t]))

theorem replaceFirst_eq_set {ts : List PropertyTemplate} (h : ∃ u ∈ ts, u.id = t.id) :
    ∃ i, (ts[i]?).map (·.id) = some t.id ∧ replaceFirst t ts = ts.set i t := by
  induction ts with
  | nil => simp at h
  | cons u us ih =>
    by_cases hu : u.id = t.id
    · exact ⟨0, by simp [hu], by simp [replaceFirst, hu]⟩
    · obtain ⟨x, hx, hid⟩ := h
      rcases List.mem_cons.1 hx with rfl | hx
      · exact absurd hid hu
      · obtain ⟨i, hi, hset⟩ := ih ⟨x, hx, hid⟩
        exact ⟨i + 1, by simpa using hi, by simp [replaceFirst, hu, hset]⟩

theorem putsIn_putTemplate (b : Board) (t : PropertyTemplate) : PutsIn t b (b.putTemplate t) := by
  have hfound : (b.template? t.id).isSome ↔ ∃ u ∈ b.templates, u.id = t.id := by
    simp [template?, List.find?_isSome]
  unfold putTemplate
  split
  · rename_i h
    exact ⟨rfl, .inl (replaceFirst_eq_set (hfound.1 h))⟩
  · rename_i h
    exact ⟨rfl, .inr ⟨fun u hu hid => h (hfound.2 ⟨u, hu, hid⟩), rfl⟩⟩

theorem typed_empty : Board.empty.Typed r := ⟨List.nodup_nil, by simp [empty]⟩

theorem Typed.putMember (hb : b.Typed r) (id name : String) : (b.putMember id name).Typed r := ⟨hb.distinct, hb.known⟩

theorem Typed.putTemplate (hb : b.Typed r) (ht : r.Knows t) : (b.putTemplate t).Typed r := by
  constructor
  · rcases (putsIn_putTemplate b t).2 with ⟨i, hi, hset⟩ | ⟨hnew, happend⟩
    · -- the template replaced had the same identifier
      rw [← List.getElem?_map] at hi
      obtain ⟨hlt, hid⟩ := List.getElem?_eq_some_iff.1 hi
      rw [hset, List.map_set, ← hid, List.set_getElem_self]
      exact hb.distinct
    · rw [happend, List.map_append, List.nodup_append]
      refine ⟨hb.distinct, by simp, ?_⟩
      rintro id hid _ hid' rfl
      obtain ⟨u, hu, rfl⟩ := List.mem_map.1 hid
      exact hnew u hu (by simpa using hid')
  · intro u hu
    rcases mem_putTemplate hu with rfl | hu
    · exact ht
    · exact hb.known u hu

end Board

/-! ## What templates give -/

section Uses

variable {r : PropertyRegistry} {b : Board} {t : PropertyTemplate}

theorem PropertyRegistry.knows_iff : r.Knows t ↔ ∃ k, r.kindOf t = .ok k := by
  unfold Knows kindOf
  cases r.get? t.tag <;> simp

/-- a card shows one property for each template, in their order -/
theorem Gallery.forall₂_renderProperties (hb : b.Typed r) (c : Card) :
    List.Forall₂ (fun t p => renderProperty? r b.members c t = some p) b.templates (renderProperties r b c) := by
  refine forall₂_filterMap fun t ht => ?_
  obtain ⟨k, hk⟩ := Option.isSome_iff_exists.1 (hb.known t ht)
  have hshown :
      renderProperty? r b.members c t = some ⟨t.id, t.name, k.render (c.property? t.id) t b.members .display⟩ := by
    rw [renderProperty?, hk]
    rfl
  exact ⟨_, hshown, hshown⟩

end Uses

/-! ## Errors that do not tell of unknown types -/

/-- the error of a property type that is not known -/
def ApiError.TellsUnknownType (e : ApiError) : Prop := e.report.code = "E_UNKNOWN_PROPERTY_TYPE"

namespace ApiError

theorem not_unknown_ofHistory (e : HistoryError) : ¬ (ofHistory e).TellsUnknownType := by
  rcases e with e | - | -
  · cases e <;> simp [TellsUnknownType, ofHistory, HistoryError.report, StoreError.code]
  · simp [TellsUnknownType, ofHistory, HistoryError.report]
  · simp [TellsUnknownType, ofHistory, HistoryError.report]

theorem not_unknown_ofCall (e : CallError) : ¬ (ofCall e).TellsUnknownType := by
  cases e with
  | history e => exact not_unknown_ofHistory e
  | content e => cases e <;> simp [TellsUnknownType, ofCall, CallError.report]
  | _ => simp [TellsUnknownType, ofCall, CallError.report]

theorem not_unknown_templateNotFound (id : String) : ¬ (templateNotFound id).TellsUnknownType := by
  simp [TellsUnknownType, templateNotFound]

theorem unknown_ofProperty {e : PropertyError} (he : (ofProperty e).TellsUnknownType) :
    ∃ tag, e = .unknownType tag := by
  cases e <;> simp_all [TellsUnknownType, ofProperty, PropertyError.report, PropertyError.code]

end ApiError

namespace PropertyKind

variable {t : PropertyTemplate} {ms : Members} {tag : String}

theorem optionIds_ne_unknownType (ids keys : List String) : optionIds t ids keys ≠ .error (.unknownType tag) := by
  induction keys generalizing ids with
  | nil => exact nofun
  | cons key keys ih =>
    simp only [optionIds, optionId, bind, Except.bind]
    cases t.option? key with
    | none => exact nofun
    | some o => exact ih _

/-- an input is never refused for the type of its template -/
theorem parse_ne_unknownType (k : PropertyKind) (raw : String) : k.parse raw t ms ≠ .error (.unknownType tag) := by
  have hblank : ∀ read : Except PropertyError Json, read ≠ .error (.unknownType tag) →
      (if Text.trim raw = "" then Except.ok .null else read) ≠ .error (.unknownType tag) := by
    intro read hread
    split
    · simp
    · exact hread
  simp only [parse]
  cases k with
  | text => exact hblank _ (by simp)
  | number | email | url => exact hblank _ (by split <;> simp)
  | checkbox =>
    dsimp only
    split <;> simp
  | select =>
    refine hblank _ ?_
    unfold optionId
    split <;> simp [Except.map]
  | multiSelect =>
    have hids : optionIds t [] (optionKeys raw) ≠ .error (.unknownType tag) :=
      optionIds_ne_unknownType [] (optionKeys raw)
    dsimp only
    cases hkeys : optionIds t [] (optionKeys raw) with
    | ok ids => simp [Except.map]
    | error e =>
      intro he
      cases he
      exact hids hkeys
  | person => exact hblank _ (by split <;> simp)

end PropertyKind

/-! ## Requests -/

namespace RequestPhase

variable {w : AppWorld} {a : App} {c : Command} {p : RequestPhase}

/-- the template of a calculation is of a type that is known, and an unknown type is told to no request but the one that
brings a template of it -/
def Typed (r : PropertyRegistry) (c : Command) : RequestPhase → Prop
  | start c' => c' = c
  | compute t _ => r.Knows t
  | done (.failed e) => e.TellsUnknownType → ∃ t, c = .putTemplate t ∧ ¬ r.Knows t
  | _ => True

theorem typed_fail {e : ApiError} (he : ¬ e.TellsUnknownType) : (fail e).Typed w.properties c := fun h => absurd h he

theorem typed_noCard (card : Uuid) : (noCard card).Typed w.properties c := typed_fail (ApiError.not_unknown_ofCall _)

theorem typed_begin (hb : a.board.Typed w.properties) (m : Ambient) (name : Nat) (c : Command) :
    (begin w m name a c).2.Typed w.properties c := by
  have hopen :
      ∀ (card : Uuid) (purpose : Purpose) (k : Call), (openCall w a name card purpose k).Typed w.properties c := by
    intro card purpose k
    unfold openCall
    split
    · exact typed_noCard card
    · trivial
  cases c with
  | putTemplate t =>
    simp only [begin]
    cases hk : w.properties.kindOf t with
    | ok k => trivial
    | error e =>
      refine fun _ => ⟨t, rfl, fun hknown => ?_⟩
      obtain ⟨k, hk'⟩ := PropertyRegistry.knows_iff.1 hknown
      cases hk.symm.trans hk'
  | calculate id k =>
    simp only [begin]
    split
    · rename_i t ht
      exact hb.known t (List.mem_of_find?_eq_some ht)
    · exact typed_fail (ApiError.not_unknown_templateNotFound id)
  | undo | redo =>
    simp only [begin, ofHistory]
    split
    · trivial
    · exact typed_fail (ApiError.not_unknown_ofHistory _)
  | getCard | previewCard | setProperty =>
    simp only [begin]
    split
    · trivial
    · exact typed_noCard _
  | addContent | compose | updateContent | deleteContent | moveContent => exact hopen _ _ _
  | _ => trivial

theorem typed_readInput (hb : a.board.Typed w.properties) {templateId value : String} {e : ApiError}
    (he : readInput w a.board templateId value = .error e) : ¬ e.TellsUnknownType := by
  unfold readInput at he
  cases ht : a.board.template? templateId with
  | none =>
    simp only [ht] at he
    cases he
    exact ApiError.not_unknown_templateNotFound templateId
  | some t =>
    obtain ⟨k, hk⟩ := PropertyRegistry.knows_iff.1 (hb.known t (List.mem_of_find?_eq_some ht))
    simp only [ht, hk, Except.bind] at he
    cases hparse : k.parse value t a.board.members with
    | ok v => simp only [hparse] at he; cases he
    | error x =>
      simp only [hparse] at he
      cases he
      intro htells
      obtain ⟨tag, rfl⟩ := ApiError.unknown_ofProperty htells
      exact PropertyKind.parse_ne_unknownType k value hparse

/-- **One step of a request** on a board of known types. -/
theorem Typed.step (hp : p.Typed w.properties c) (hb : a.board.Typed w.properties) (m : Ambient) (name : Nat) :
    (p.step w m name a).2.Typed w.properties c := by
  cases p with
  | start c' =>
    obtain rfl : c' = c := hp
    exact typed_begin hb m name c'
  | call t purpose =>
    simp only [RequestPhase.step, afterCall]
    split
    · rename_i r hr
      rcases r with e | (b | bs | ids)
      · exact typed_fail (ApiError.not_unknown_ofCall e)
      · cases purpose <;> trivial
      · trivial
      · trivial
    · trivial
  | search text q =>
    simp only [RequestPhase.step]
    split <;> trivial
  | compute t k =>
    obtain ⟨kind, hk⟩ := PropertyRegistry.knows_iff.1 hp
    simp only [RequestPhase.step, PropertyRegistry.calculate, hk, bind, Except.bind]
    split
    · trivial
    · rename_i e he
      split at he
      · cases he
      · cases he
        refine typed_fail fun htells => ?_
        obtain ⟨tag, htag⟩ := ApiError.unknown_ofProperty htells
        cases htag
  | parseInput x templateId value =>
    simp only [RequestPhase.step]
    split
    · trivial
    · rename_i e he
      exact typed_fail (typed_readInput hb he)
  | writeProperty x templateId v =>
    simp only [RequestPhase.step]
    split
    · trivial
    · exact typed_fail (ApiError.not_unknown_ofHistory _)
  | readBack card =>
    simp only [RequestPhase.step]
    split
    · trivial
    · exact typed_noCard card
  | done r => exact hp
  | _ => trivial

/-- a template comes to the board exactly when its type is known -/
theorem step_putTemplate (w : AppWorld) (m : Ambient) (name : Nat) (a : App) (t : PropertyTemplate) :
    (w.properties.Knows t ∧
      (start (.putTemplate t)).step w m name a = ({ a with board := a.board.putTemplate t }, done (.template t))) ∨
    (¬ w.properties.Knows t ∧ ((start (.putTemplate t)).step w m name a).1 = a) := by
  simp only [RequestPhase.step, begin]
  cases hk : w.properties.kindOf t with
  | ok k => exact .inl ⟨PropertyRegistry.knows_iff.2 ⟨k, hk⟩, rfl⟩
  | error e =>
    refine .inr ⟨fun hknown => ?_, rfl⟩
    obtain ⟨k, hk'⟩ := PropertyRegistry.knows_iff.1 hknown
    cases hk.symm.trans hk'

/-- the board after a step of a request -/
theorem typed_board (hb : a.board.Typed w.properties) (m : Ambient) (name : Nat) (p : RequestPhase) :
    (p.step w m name a).1.board.Typed w.properties := by
  rcases board_step w m name a p with h | ⟨t, rfl, -⟩ | ⟨id, person, -, h⟩
  · rw [h]
    exact hb
  · rcases step_putTemplate w m name a t with ⟨hknown, h⟩ | ⟨-, h⟩
    · rw [h]
      exact hb.putTemplate hknown
    · rw [h]
      exact hb
  · rw [h]
    exact hb.putMember id person

end RequestPhase

namespace Traffic

variable {w : AppWorld} {es : List Event}

theorem typed_run (w : AppWorld) (es : List Event) : (new.run w es).app.board.Typed w.properties ∧
    ∀ q ∈ (new.run w es).requests, q.phase.Typed w.properties q.command :=
  run_keeps (A := fun a => a.board.Typed w.properties) (I := fun c p => p.Typed w.properties c) Board.typed_empty
    (fun _ => rfl) (fun m place _ _ p ha hp => ⟨RequestPhase.typed_board ha m place p, hp.step ha m place⟩) es

/-- templates change by requests that put one in, and by no other event -/
theorem templates_take (w : AppWorld) (t : Traffic) (e : Event) :
    (t.take w e).app.board.templates = t.app.board.templates ∨
    ∃ place m q u, e = .step place m ∧ t.requests[place]? = some q ∧ q.phase = .start (.putTemplate u) := by
  cases e with
  | arrive c => exact .inl rfl
  | step place m =>
    cases hq : t.requests[place]? with
    | none => exact .inl (by simp only [take, hq])
    | some q =>
      rw [(take_step w hq m).1]
      rcases RequestPhase.board_step w m place t.app q.phase with h | ⟨u, hu, -⟩ | ⟨id, person, -, h⟩
      · exact .inl (by rw [h])
      · exact .inr ⟨place, m, q, u, rfl, hq, hu⟩
      · exact .inl (by rw [h]; rfl)

theorem putsIn_take (w : AppWorld) {t : Traffic} {place : Nat} {q : Asked} {u : PropertyTemplate} (m : Ambient)
    (hq : t.requests[place]? = some q) (hp : q.phase = .start (.putTemplate u)) :
    (w.properties.Knows u ∧ Board.PutsIn u t.app.board (t.take w (.step place m)).app.board ∧
      (t.take w (.step place m)).requests[place]? = some { q with phase := .done (.template u) }) ∨
    (¬ w.properties.Knows u ∧ (t.take w (.step place m)).app = t.app) := by
  rw [getElem?_take_step w hq m, (take_step w hq m).1, hp]
  rcases RequestPhase.step_putTemplate w m place t.app u with ⟨hknown, h⟩ | ⟨hunknown, h⟩
  · rw [h]
    exact .inl ⟨hknown, Board.putsIn_putTemplate _ _, rfl⟩
  · exact .inr ⟨hunknown, h⟩

/-- **Templates of known types.** In every reachable state templates have identifiers of their own and types that are
known; they change only by a request that puts one in, which takes the place of the one with its identifier or goes to
the end, and is refused if its type is not known. Every answer to a request for a card shows one property for each
template of the moment at which it read them, in their order, and no other request is told of an unknown type. -/
theorem templates_of_known_types (w : AppWorld) (es : List Event) :
    let t := new.run w es
    t.app.board.Typed w.properties ∧
    (∀ e, (t.take w e).app.board.templates = t.app.board.templates ∨
      ∃ place m q u, e = .step place m ∧ t.requests[place]? = some q ∧ q.phase = .start (.putTemplate u)) ∧
    (∀ place m q u, t.requests[place]? = some q → q.phase = .start (.putTemplate u) →
      (w.properties.Knows u ∧ Board.PutsIn u t.app.board (t.take w (.step place m)).app.board ∧
        (t.take w (.step place m)).requests[place]? = some { q with phase := .done (.template u) }) ∨
      (¬ w.properties.Knows u ∧ (t.take w (.step place m)).app = t.app)) ∧
    (∀ place q c contents properties, t.requests[place]? = some q → q.phase = .done (.shownCard c contents properties) →
      ∃ k, StepsAt es place k ∧
        List.Forall₂ (fun u p => Gallery.renderProperty? w.properties (moment w es k).app.board.members c u = some p)
          (moment w es k).app.board.templates properties ∧
        properties.map (·.templateId) = (moment w es k).app.board.templates.map (·.id)) ∧
    ∀ (place : Nat) (q : Asked) (e : ApiError), t.requests[place]? = some q → q.phase = .done (.failed e) →
      e.report.code = "E_UNKNOWN_PROPERTY_TYPE" → ∃ u, q.command = .putTemplate u ∧ ¬ w.properties.Knows u := by
  intro t
  obtain ⟨hboard, hrequests⟩ := typed_run w es
  refine ⟨hboard, templates_take w t, fun place m q u => putsIn_take w m, ?_, ?_⟩
  · intro place q c contents properties hq hp
    have hdated := dated_run w es hq
    simp only [Asked.Dated, hp] at hdated
    obtain ⟨-, i, j, k, hreads⟩ := hdated
    have hshown := Gallery.forall₂_renderProperties (typed_run w (es.take k)).1 c
    rw [← moment, ← hreads.properties] at hshown
    refine ⟨k, hreads.propertiesStep, hshown, map_eq_of_forall₂ hshown fun u p hu => ?_⟩
    obtain ⟨kind, -, rfl⟩ := Option.map_eq_some_iff.1 hu
    rfl
  · intro place q e hq hp hcode
    have htyped := hrequests q (List.mem_of_getElem? hq)
    rw [hp] at htyped
    exact htyped hcode

/-- two templates, of which the first is put in again under another type, a card, and a request for it -/
def retitled : List Event :=
  [.arrive (.putTemplate ⟨"due", "Due", "text", []⟩), .arrive (.putTemplate ⟨"size", "Size", "number", []⟩),
    .arrive (.putTemplate ⟨"due", "Late", "checkbox", []⟩), .arrive (.createCard none none), .arrive (.getCard ⟨4⟩)] ++
  [0, 1, 2, 3, 4, 4, 4].mapIdx fun k place => .step place ⟨k, ⟨.ofNat 128 (k + 1)⟩, .nil⟩

theorem retitled_shows_both : ∃ c contents properties,
    (new.run (.ofConfig .default) retitled).requests[4]? =
      some ⟨.getCard ⟨4⟩, .done (.shownCard c contents properties)⟩ ∧
    properties.map (·.templateId) = ["due", "size"] ∧
    ∃ k, StepsAt retitled 4 k ∧ properties.map (·.templateId) =
      (moment (.ofConfig .default) retitled k).app.board.templates.map (·.id) := by
  have hq : (new.run (.ofConfig .default) retitled).requests[4]? = some ⟨.getCard ⟨4⟩,
      .done (.shownCard (.fresh ⟨4⟩ .nil "Untitled") []
        [⟨"due", "Late", ⟨.display, .checkbox false ""⟩⟩, ⟨"size", "Size", ⟨.display, .empty⟩⟩])⟩ := rfl
  obtain ⟨-, -, -, hshown, -⟩ := templates_of_known_types (.ofConfig .default) retitled
  obtain ⟨k, hk, -, hids⟩ := hshown 4 _ _ _ _ hq rfl
  exact ⟨_, _, _, hq, rfl, k, hk, hids⟩

end Traffic

end Corkboard
