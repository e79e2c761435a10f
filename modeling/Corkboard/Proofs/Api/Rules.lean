/-
Rules for values through runs.

What a request is about to write was read from an input on some earlier board. So a rule for property values holds of
all that is stored, of the whole history, and of what requests are about to write, if whatever boards of a run read from
inputs obeys it.

- `Ruled.run`: a rule is kept by every run whose requests keep what it rests on.
- `teaches_stored`, `teaches_fits`: every board stores texts, truth values and lists of texts; a board with one form
  under each identifier stores values of that form.
-/
import Corkboard.Proofs.Api.Step
import Corkboard.Proofs.History.Values
import Corkboard.Proofs.Property.Slots

namespace Corkboard

/-! ## Rules through runs -/

/-- a request that keeps what is so of templates and people -/
def Command.Minds (B : Board → Prop) : Command → Prop
  | putTemplate t => ∀ b, B b → B (b.putTemplate t)
  | putMember id name => ∀ b, B b → B (b.putMember id name)
  | _ => True

/-- what a request is about to write obeys a rule -/
def RequestPhase.Obeys (P : String → Json → Prop) (B : Board → Prop) : RequestPhase → Prop
  | start c => c.Minds B
  | writeProperty _ templateId v => ∀ x ∈ v, P templateId x
  | _ => True

/-- what is typed on a board is stored by the rule -/
def AppWorld.Teaches (w : AppWorld) (P : String → Json → Prop) (B : Board → Prop) : Prop :=
  ∀ b, B b → ∀ templateId value v, RequestPhase.readInput w b templateId value = .ok v → ∀ x ∈ v, P templateId x

namespace RequestPhase

variable {P : String → Json → Prop} {B : Board → Prop} {w : AppWorld} {m : Ambient} {h h' : History}
    {p p' : RequestPhase}

theorem Acts.obeys (ha : Acts m h p h' p') (hh : h.Obeys P) (ho : p.Obeys P B) : h'.Obeys P := by
  cases ha with
  | calm _ => exact hh
  | called hacts => exact hacts.obeys hh
  | undone hu => exact hh.undo hu
  | redone hr => exact hh.redo hr
  | created => exact hh.insertCard (Card.obeys_fresh _ _ _)
  | wrote hc =>
    refine hh.commit (fun x hx => ?_) hc
    obtain rfl := List.mem_singleton.1 hx
    exact ho

/-- templates and people after a step -/
theorem step_minds (w : AppWorld) (m : Ambient) (name : Nat) (a : App) (hb : B a.board) (ho : p.Obeys P B) :
    B (p.step w m name a).1.board := by
  rcases board_step w m name a p with h | ⟨t, rfl, h⟩ | ⟨id, person, rfl, h⟩
  · rw [h]
    exact hb
  · rw [h]
    exact ho _ hb
  · rw [h]
    exact ho _ hb

theorem step_obeys (hw : w.Teaches P B) (m : Ambient) (name : Nat) (a : App) (hb : B a.board) (p : RequestPhase) :
    (p.step w m name a).2.Obeys P B := by
  cases p with
  | start c =>
    cases c with
    | putTemplate | calculate | getCard | previewCard | setProperty =>
      simp only [step, begin]
      split <;> trivial
    | addContent | compose | updateContent | deleteContent | moveContent =>
      simp only [step, begin, openCall]
      split <;> trivial
    | undo | redo =>
      simp only [step, begin, ofHistory]
      split <;> trivial
    | _ => trivial
  | parseInput x templateId value =>
    simp only [step]
    split
    · rename_i v hv
      exact hw a.board hb templateId value v hv
    · trivial
  | call t purpose =>
    simp only [step, afterCall]
    split <;> trivial
  | compute | writeProperty | readBack =>
    simp only [step]
    split <;> trivial
  | search text q =>
    simp only [step]
    split <;> trivial
  | _ => trivial

end RequestPhase

namespace Traffic

variable {P : String → Json → Prop} {B : Board → Prop} {w : AppWorld} {t : Traffic}

/-- a rule for values holds of the document and of what requests are about to write -/
structure Ruled (P : String → Json → Prop) (B : Board → Prop) (t : Traffic) : Prop where
  history : t.history.Obeys P
  board : B t.app.board
  requests : ∀ q ∈ t.requests, q.phase.Obeys P B

theorem ruled_new (hb : B .empty) : Ruled P B new := ⟨History.obeys_empty, hb, by simp [new]⟩

/-- **One event** keeps a rule, if the request that arrives keeps what it rests on. -/
theorem Ruled.take (hr : Ruled P B t) (hw : w.Teaches P B) (e : Event) (he : ∀ c, e = .arrive c → c.Minds B) :
    Ruled P B (t.take w e) := by
  cases e with
  | arrive c =>
    refine ⟨hr.history, hr.board, fun q hq => ?_⟩
    rcases List.mem_append.1 hq with hq | hq
    · exact hr.requests q hq
    · obtain rfl := List.mem_singleton.1 hq
      exact he c rfl
  | step place m =>
    simp only [Traffic.take]
    cases hq : t.requests[place]? with
    | none => exact hr
    | some q =>
      have ho := hr.requests q (List.mem_of_getElem? hq)
      refine ⟨(RequestPhase.step_acts w m place t.app q.phase).obeys hr.history ho,
        RequestPhase.step_minds w m place t.app hr.board ho, fun q' hq' => ?_⟩
      rcases List.mem_or_eq_of_mem_set hq' with hq' | rfl
      · exact hr.requests q' hq'
      · exact RequestPhase.step_obeys hw m place t.app hr.board q.phase

theorem Ruled.run (hr : Ruled P B t) (hw : w.Teaches P B) (es : List Event) (he : ∀ c, .arrive c ∈ es → c.Minds B) :
    Ruled P B (t.run w es) := by
  induction es generalizing t with
  | nil => exact hr
  | cons e es ih =>
    exact ih (hr.take hw e fun c hc => he c (hc ▸ List.mem_cons_self)) fun c hc => he c (List.mem_cons_of_mem _ hc)

end Traffic

/-! ## What boards teach -/

section Teaching

variable {w : AppWorld} {b : Board} {t u : PropertyTemplate} {form : String → PropertyForm}

theorem Board.mem_putTemplate (hu : u ∈ (b.putTemplate t).templates) : u = t ∨ u ∈ b.templates := by
  have hreplace : ∀ us : List PropertyTemplate, u ∈ replaceFirst t us → u = t ∨ u ∈ us := by
    intro us
    induction us with
    | nil => simp [replaceFirst]
    | cons x xs ih =>
      intro hx
      simp only [replaceFirst] at hx
      split at hx
      · rcases List.mem_cons.1 hx with rfl | hx
        · exact .inl rfl
        · exact .inr (List.mem_cons_of_mem _ hx)
      · rcases List.mem_cons.1 hx with rfl | hx
        · exact .inr List.mem_cons_self
        · exact (ih hx).imp_right (List.mem_cons_of_mem _)
  simp only [putTemplate] at hu
  split at hu
  · exact hreplace _ hu
  · simpa [or_comm] using hu

/-- a template that stores values of one form under its identifier, and whose options have identifiers -/
def PropertyTemplate.Formed (r : PropertyRegistry) (form : String → PropertyForm) (t : PropertyTemplate) : Prop :=
  (∀ k, r.kindOf t = .ok k → k.form = form t.id) ∧ t.NoBlanks

/-- a board that stores values of one form under each identifier, and whose options and people have identifiers -/
structure Board.Formed (r : PropertyRegistry) (form : String → PropertyForm) (b : Board) : Prop where
  templates : ∀ t ∈ b.templates, t.Formed r form
  members : ∀ id, (b.members.get? id).isSome → Text.trim id ≠ ""

theorem AppWorld.readInput_cases {id value : String} {v : Option Json} {x : Json}
    (h : RequestPhase.readInput w b id value = .ok v) (hx : x ∈ v) :
    ∃ t k, t ∈ b.templates ∧ t.id = id ∧ w.properties.kindOf t = .ok k ∧ k.parse value t b.members = .ok x ∧
      x ≠ .null := by
  unfold RequestPhase.readInput at h
  split at h
  · cases h
  · rename_i t ht
    have hid : t.id = id := by simpa using List.find?_some ht
    cases hk : w.properties.kindOf t with
    | error e => simp [hk, Except.bind] at h
    | ok k =>
      cases hy : k.parse value t b.members with
      | error e => simp [hk, hy, Except.bind] at h
      | ok y =>
        simp only [hk, hy, Except.bind, RequestPhase.stored, Except.ok.injEq] at h
        subst h
        split at hx
        · cases hx
        · rename_i hne
          cases hx
          exact ⟨t, k, List.mem_of_find?_eq_some ht, hid, hk, hy, hne⟩

/-- every board stores texts, truth values, and lists of texts -/
theorem AppWorld.teaches_stored (w : AppWorld) : w.Teaches (fun _ v => v.Stored) fun _ => True := by
  intro b _ id value v h x hx
  obtain ⟨t, k, -, -, -, hparse, hne⟩ := readInput_cases h hx
  exact (PropertyKind.parse_stored hparse).resolve_left hne

/-- a board of one form for each identifier stores values of it -/
theorem AppWorld.teaches_fits (w : AppWorld) (form : String → PropertyForm) :
    w.Teaches (fun id v => (form id).Fits v) (Board.Formed w.properties form) := by
  intro b hb id value v h x hx
  obtain ⟨t, k, ht, rfl, hk, hparse, hne⟩ := readInput_cases h hx
  obtain ⟨hform, hoptions⟩ := hb.templates t ht
  rw [← hform k hk]
  exact (PropertyKind.parse_fits hoptions hb.members hparse).resolve_left hne

/-- a request that changes no form and brings no blank identifier -/
def Command.Forms (r : PropertyRegistry) (form : String → PropertyForm) : Command → Prop
  | putTemplate t => t.Formed r form
  | putMember id _ => Text.trim id ≠ ""
  | _ => True

theorem Command.Forms.minds {r : PropertyRegistry} {c : Command} (hc : c.Forms r form) :
    c.Minds (Board.Formed r form) := by
  cases c with
  | putTemplate t =>
    refine fun b hb => ⟨fun u hu => ?_, ?_⟩
    · rcases Board.mem_putTemplate hu with rfl | hu
      · exact hc
      · exact hb.templates u hu
    · unfold Board.putTemplate
      split <;> exact hb.members
  | putMember id name =>
    refine fun b hb => ⟨hb.templates, fun key hkey => ?_⟩
    simp only [Board.putMember, Table.get?_insert] at hkey
    split at hkey
    · rename_i he
      rw [he]
      exact hc
    · exact hb.members key hkey
  | _ => trivial

end Teaching

end Corkboard
