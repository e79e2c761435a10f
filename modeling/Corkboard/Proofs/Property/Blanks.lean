/-
Blank inputs.

An input of nothing but blanks clears a property. Most types store nothing then, but a checkbox stores false and a
multiple selection the empty list, so the card still has a value. Can anybody tell such a card from one without the
value?

- `parse_blank`: every type accepts a blank input, and stores its cleared value.
- `compute_congr`, `compute_boxes_congr`: what a calculation reads of each slot decides its result.
- `render_cleared`, `indistinct_cleared`: a cleared value is shown like none, by every type and in every mode, and any
  calculation of the type gives the same on any cards with either.
- `blank_input_clears`: the request that writes a blank input succeeds and leaves such a card, and the board answers as
  if the value were not there.
-/
import Corkboard.Proofs.Api.Bodies
import Corkboard.Proofs.Api.Empties
import Corkboard.Proofs.Property.Keys
import Corkboard.Proofs.Property.Saving

namespace Corkboard

/-! ## Calculations -/

namespace Calculation

variable {calculation : Calculation} {xs ys : List (Option Json)}

/-- slots of which no calculation reads anything different -/
structure Alike (x y : Option Json) : Prop where
  empty : isEmpty x = isEmpty y
  checked : isChecked x = isChecked y
  texts : slotTexts x = slotTexts y
  number : slotNumber x = slotNumber y

theorem Alike.refl (x : Option Json) : Alike x x := ⟨rfl, rfl, rfl, rfl⟩

theorem countP_eq_of_forall₂ {R : Option Json → Option Json → Prop} {p : Option Json → Bool} (h : List.Forall₂ R xs ys)
    (hp : ∀ x y, R x y → p x = p y) : xs.countP p = ys.countP p := by
  have hmap : ys.map p = xs.map p := map_eq_of_forall₂ h fun x y hxy => (hp x y hxy).symm
  have hcount : ∀ zs : List (Option Json), zs.countP p = (zs.map p).countP id := fun zs => by rw [List.countP_map]; rfl
  rw [hcount, hcount, hmap]

/-- the result depends on what is read of each slot -/
theorem compute_congr (h : List.Forall₂ Alike xs ys) : calculation.compute xs = calculation.compute ys := by
  have hempty : xs.countP isEmpty = ys.countP isEmpty := countP_eq_of_forall₂ h fun _ _ hxy => hxy.empty
  have hchecked : xs.countP isChecked = ys.countP isChecked := countP_eq_of_forall₂ h fun _ _ hxy => hxy.checked
  have htexts : valueTexts xs = valueTexts ys := by
    rw [valueTexts, valueTexts, List.flatMap_def, List.flatMap_def, map_eq_of_forall₂ h fun _ _ hxy => hxy.texts.symm]
  have hnumbers : numbers xs = numbers ys := by
    have hmap : ys.map slotNumber = xs.map slotNumber := map_eq_of_forall₂ h fun _ _ hxy => hxy.number.symm
    rw [numbers, numbers, ← Function.id_comp slotNumber, ← List.filterMap_map, ← List.filterMap_map, hmap]
  simp only [compute, h.length_eq, hempty, hchecked, htexts, hnumbers]

/-- the calculations of checkboxes read of a slot whether it is checked, and nothing else -/
theorem compute_boxes_congr (hc : calculation ∈ boxes) (h : List.Forall₂ (fun x y => isChecked x = isChecked y) xs ys) :
    calculation.compute xs = calculation.compute ys := by
  have hchecked : xs.countP isChecked = ys.countP isChecked := countP_eq_of_forall₂ h fun _ _ hxy => hxy
  simp only [boxes, List.mem_cons, List.not_mem_nil, or_false] at hc
  rcases hc with rfl | rfl | rfl | rfl | rfl | rfl <;> simp only [compute, h.length_eq, hchecked]

end Calculation

namespace PropertyKind

variable {k : PropertyKind} {t : PropertyTemplate} {ms : Members} {raw : String} {c d : Card}

/-! ## Cleared properties -/

/-- what is on a card whose property was cleared -/
def cleared : PropertyKind → Option Json
  | checkbox => some (.bool false)
  | multiSelect => some (.array [])
  | _ => none

theorem optionKeys_of_blank (hraw : Text.trim raw = "") : optionKeys raw = [] := by
  have hcomma : ',' ∉ raw.toList := by
    intro hmem
    have hblank : Text.isBlankChar ',' = true := List.all_eq_true.1 ((Text.trim_eq_empty_iff raw).1 hraw) ',' hmem
    exact absurd hblank (by decide)
  simp [optionKeys_of_one_piece hcomma, hraw]

theorem parse_blank (hraw : Text.isBlank raw = true) :
    ∃ v, k.parse raw t ms = .ok v ∧ RequestPhase.stored v = k.cleared := by
  have htrim : Text.trim raw = "" := (Text.trim_eq_empty_iff raw).2 hraw
  cases k with
  | checkbox => exact ⟨.bool false, by simp only [parse, htrim]; decide, rfl⟩
  | multiSelect => exact ⟨.array [], by rw [parse_multiSelect, optionKeys_of_blank htrim]; rfl, rfl⟩
  | _ => exact ⟨.null, by simp only [parse, htrim, if_true], rfl⟩

/-- a value cleared by one type is shown like none by all of them -/
theorem render_cleared (k' : PropertyKind) (mode : ViewMode) :
    k'.render k.cleared t ms mode = k'.render none t ms mode := by
  cases k with
  | checkbox | multiSelect => cases k' <;> rfl
  | _ => rfl

theorem alike_cleared (hk : k ≠ checkbox) : Calculation.Alike k.cleared none := by
  cases k with
  | checkbox => exact absurd rfl hk
  | multiSelect => exact ⟨by decide, rfl, rfl, rfl⟩
  | _ => exact .refl _

/-- cards that nothing which the type of a template shows or sums up tells apart -/
structure Indistinct (k : PropertyKind) (t : PropertyTemplate) (c d : Card) : Prop where
  views : ∀ (ms : Members) (mode : ViewMode),
    k.render (c.property? t.id) t ms mode = k.render (d.property? t.id) t ms mode
  results : ∀ calculation, k.supports calculation = true → ∀ before after : List Card,
    calculation.compute ((before ++ c :: after).map (·.property? t.id)) =
      calculation.compute ((before ++ d :: after).map (·.property? t.id))

theorem indistinct_cleared (hc : c.property? t.id = k.cleared) (hd : d.property? t.id = none) : k.Indistinct t c d := by
  refine ⟨fun ms mode => ?_, fun calculation hoffered before after => ?_⟩
  · rw [hc, hd, render_cleared]
  · -- the slots are the same but for one
    have hslots : ∀ {R : Option Json → Option Json → Prop}, (∀ x, R x x) → R k.cleared none →
        List.Forall₂ R ((before ++ c :: after).map (·.property? t.id))
          ((before ++ d :: after).map (·.property? t.id)) := by
      intro R hrefl hslot
      rw [List.map_append, List.map_append, List.map_cons, List.map_cons, hc, hd]
      exact List.rel_append (List.forall₂_same.2 fun x _ => hrefl x)
        (.cons hslot (List.forall₂_same.2 fun x _ => hrefl x))
    by_cases hbox : k = checkbox
    · subst hbox
      exact Calculation.compute_boxes_congr (List.contains_iff_mem.1 hoffered) (hslots (fun _ => rfl) rfl)
    · exact Calculation.compute_congr (hslots .refl (alike_cleared hbox))

end PropertyKind

/-! ## Cards -/

namespace Gallery

theorem renderProperties_cleared (r : PropertyRegistry) (b : Board) (c : Card) (id : String) (k : PropertyKind) :
    renderProperties r b (c.writeProperty id k.cleared) = renderProperties r b (c.writeProperty id none) := by
  refine List.filterMap_congr fun t _ => ?_
  rw [renderProperty?, renderProperty?]
  by_cases hid : t.id = id
  · simp only [Card.property?_writeProperty, if_pos hid, PropertyKind.render_cleared]
  · simp only [Card.property?_writeProperty, if_neg hid]

theorem preview_cleared (content : ContentRegistry) (r : PropertyRegistry) (s : Store) (b : Board) (c : Card)
    (id : String) (k : PropertyKind) :
    preview content r s b (c.writeProperty id k.cleared) = preview content r s b (c.writeProperty id none) := by
  unfold preview
  rw [renderProperties_cleared]
  rfl

end Gallery

namespace PropertyKind

variable {w : AppWorld} {u u' : Traffic} {k : PropertyKind} {t : PropertyTemplate} {raw : String} {c : Card}

/-- **Blank inputs clear.** Every type accepts a blank input to any template, among any people. The request that writes
it succeeds: the card has the cleared value of the type afterwards, and nothing else has changed. Neither a view of the
property in either mode nor a calculation of the type, over any cards with this one among them, tells the card from one
without the value. So the board answers as it would without it, when it shows the card, alone or as a preview, and when
it calculates. -/
theorem blank_input_clears (hraw : Text.isBlank raw = true) (ht : u.app.board.template? t.id = some t)
    (hk : w.properties.kindOf t = .ok k) (hc : u.app.store.card? c.id = some c) (steps : List Ambient)
    (hsteps : 4 ≤ steps.length) (hserve : u.serve w (.setProperty c.id t.id raw) steps = u') :
    (∀ ms, ∃ v, k.parse raw t ms = .ok v ∧ RequestPhase.stored v = k.cleared) ∧
    u'.requests[u.requests.length]? =
      some ⟨.setProperty c.id t.id raw, .done (.card (c.writeProperty t.id k.cleared))⟩ ∧
    u'.app.store = u.app.store.putCard (c.writeProperty t.id k.cleared) ∧ u'.app.board = u.app.board ∧
    k.Indistinct t (c.writeProperty t.id k.cleared) (c.writeProperty t.id none) ∧
    u'.Answers w (.getCard c.id) (.shownCard (c.writeProperty t.id k.cleared)
      (Gallery.renderContents w.content u'.app.store c.id)
      (Gallery.renderProperties w.properties u'.app.board (c.writeProperty t.id none))) ∧
    u'.Answers w (.previewCard c.id)
      (.preview (Gallery.preview w.content w.properties u'.app.store u'.app.board (c.writeProperty t.id none))) ∧
    ∀ calculation, k.supports calculation = true → ∃ before after,
      u'.app.store.listed = before ++ c.writeProperty t.id k.cleared :: after ∧
      u'.Answers w (.calculate t.id calculation) (.result
        (calculation.compute ((before ++ c.writeProperty t.id none :: after).map (·.property? t.id)))) := by
  subst hserve
  have hparse : ∀ ms, ∃ v, k.parse raw t ms = .ok v ∧ RequestPhase.stored v = k.cleared := fun _ => parse_blank hraw
  obtain ⟨v, hv, hstored⟩ := hparse u.app.board.members
  have hread : RequestPhase.readInput w u.app.board t.id raw = .ok k.cleared :=
    hstored ▸ RequestPhase.readInput_eq ht hk hv
  obtain ⟨hstore, hboard, hreply⟩ := Traffic.serve_input hread hc steps
  have hwritten : (u.serve w (.setProperty c.id t.id raw) steps).app.store =
      u.app.store.putCard (c.writeProperty t.id k.cleared) := by
    rw [hstore, RequestPhase.inputStore, if_neg (by omega)]
  have hcard : (u.serve w (.setProperty c.id t.id raw) steps).app.store.card? (c.writeProperty t.id k.cleared).id =
      some (c.writeProperty t.id k.cleared) := by
    rw [hwritten, Store.card?_putCard, if_pos rfl]
  have hindistinct : k.Indistinct t (c.writeProperty t.id k.cleared) (c.writeProperty t.id none) :=
    indistinct_cleared (c.property?_writeProperty_self t.id _) (c.property?_writeProperty_self t.id _)
  refine ⟨hparse, hreply hsteps, hwritten, hboard, hindistinct, ?_, ?_, fun calculation hoffered => ?_⟩
  · have hshown := Traffic.answers_getCard (w := w) hcard
    rwa [Gallery.renderProperties_cleared] at hshown
  · have hshown := Traffic.answers_previewCard (w := w) hcard
    rwa [Gallery.preview_cleared] at hshown
  · obtain ⟨before, after, hlisted⟩ := List.append_of_mem (Store.mem_listed hcard)
    have hanswer := Traffic.answers_calculate (w := w) (hboard ▸ ht) hk hoffered
    rw [hlisted, hindistinct.results calculation hoffered] at hanswer
    exact ⟨before, after, hlisted, hanswer⟩

def ready : PropertyTemplate := ⟨"ready", "Ready", "checkbox", []⟩

/-- the board of it, with a card that was checked -/
def checked : Traffic := Traffic.new.run (.ofConfig .default)
  [.arrive (.putTemplate ready), .step 0 ⟨0, ⟨1⟩, .nil⟩, .arrive (.createCard (some "a") none), .step 1 ⟨0, ⟨2⟩, .nil⟩,
    .arrive (.setProperty ⟨2⟩ "ready" "yes"), .step 2 ⟨0, ⟨3⟩, .nil⟩, .step 2 ⟨0, ⟨4⟩, .nil⟩, .step 2 ⟨0, ⟨5⟩, .nil⟩,
    .step 2 ⟨0, ⟨6⟩, .nil⟩]

def checkedCard : Card := { Card.fresh ⟨2⟩ .nil "a" with properties := .ofList [("ready", .bool true)] }

def uncheckedCard : Card := { Card.fresh ⟨2⟩ .nil "a" with properties := .ofList [("ready", .bool false)] }

theorem blank_unchecks : Text.isBlank "\u2003\n" = true ∧ checked.app.board.template? "ready" = some ready ∧
    (AppWorld.ofConfig .default).properties.kindOf ready = .ok .checkbox ∧
    checked.app.store.card? ⟨2⟩ = some checkedCard ∧
    ∃ u', checked.serve (.ofConfig .default) (.setProperty ⟨2⟩ "ready" "\u2003\n") (.replicate 4 ⟨1, ⟨9⟩, .nil⟩) = u' ∧
      u'.app.store.card? ⟨2⟩ = some uncheckedCard ∧
      u'.Answers (.ofConfig .default) (.getCard ⟨2⟩) (.shownCard uncheckedCard []
        [⟨"ready", "Ready", ⟨.display, .checkbox false ""⟩⟩]) := by
  have hblank : Text.isBlank "\u2003\n" = true := by decide
  obtain ⟨-, -, hstore, -, -, hshown, -⟩ := blank_input_clears (w := .ofConfig .default) (u := checked) (t := ready)
    (k := checkbox) (c := checkedCard) hblank rfl rfl rfl (.replicate 4 ⟨1, ⟨9⟩, .nil⟩) (by decide) rfl
  exact ⟨hblank, rfl, rfl, rfl, _, rfl, (congrArg (·.card? ⟨2⟩) hstore).trans rfl, hshown⟩

end PropertyKind

end Corkboard
