/-
Rules for property values.

A rule says which values a property may hold. If the values of a store obey it, and so does every value that changes
carry, then it is obeyed after every change, and the changes that take back carry nothing else. Hence a rule that holds
of all that is written holds of all that undo and redo bring back.

- `Obeys.commit`, `Obeys.undo`, `Obeys.redo`: a history obeys a rule after each of its steps.
- `Task.Acts.obeys`: content calls never come near a value.
-/
import Corkboard.Proofs.Desk.Step
import Corkboard.Proofs.History.Steps

namespace Corkboard

/-! ## Rules -/

/-- the values of a card obey a rule for the values of each template -/
def Card.Obeys (P : String → Json → Prop) (c : Card) : Prop :=
  ∀ templateId, ∀ v ∈ c.property? templateId, P templateId v

def Store.Obeys (P : String → Json → Prop) (s : Store) : Prop := ∀ id, ∀ c ∈ s.card? id, c.Obeys P

/-- the values that a change would write obey a rule -/
def Change.Obeys (P : String → Json → Prop) : Change → Prop
  | setProperty _ templateId _ new => ∀ v ∈ new, P templateId v
  | updateCard new _ => new.Obeys P
  | _ => True

/-- the values of a history obey a rule, those in its steps too -/
structure History.Obeys (P : String → Json → Prop) (h : History) : Prop where
  store : h.store.Obeys P
  undos : ∀ step ∈ h.undos, ∀ m ∈ step.mutations, m.change.Obeys P
  redos : ∀ step ∈ h.redos, ∀ m ∈ step.mutations, m.change.Obeys P

variable {P : String → Json → Prop} {s s' : Store} {c : Card} {now : Int}

theorem Card.obeys_fresh (id rootId : Uuid) (title : String) : (fresh id rootId title).Obeys P := by
  intro templateId v hv
  simp [fresh, property?] at hv

theorem Card.Obeys.alter (hc : c.Obeys P) {templateId : String} {v : Option Json} (hv : ∀ x ∈ v, P templateId x) :
    { c with properties := c.properties.alter templateId v }.Obeys P := by
  intro key x hx
  simp only [property?, Table.get?_alter, Option.mem_def] at hx
  split at hx
  · rename_i hkey
    rw [hkey]
    exact hv x hx
  · exact hc key x hx

theorem Store.Obeys.putCard (hs : s.Obeys P) (hc : c.Obeys P) : (s.putCard c).Obeys P := by
  intro id x hx
  rw [Store.card?_putCard, Option.mem_def] at hx
  split at hx
  · cases hx
    exact hc
  · exact hs id x hx

/-! ## Changes and groups -/

theorem Change.Obeys.apply {ch back : Change} (hs : s.Obeys P) (ho : ch.Obeys P)
    (ha : ch.apply now s = .ok (s', back)) :
    s'.Obeys P ∧ back.Obeys P := by
  cases ch with
  | insertBlock b =>
    obtain ⟨-, -, rfl, rfl⟩ := apply_insertBlock.1 ha
    exact ⟨hs, trivial⟩
  | updateBlock new old =>
    obtain ⟨-, -, rfl, rfl⟩ := apply_updateBlock.1 ha
    exact ⟨hs, trivial⟩
  | deleteBlock b =>
    obtain ⟨-, -, rfl, rfl⟩ := apply_deleteBlock.1 ha
    exact ⟨hs, trivial⟩
  | changeOrder card old new =>
    obtain ⟨c, hc, -, -, rfl, rfl⟩ := apply_changeOrder.1 ha
    have hsame : { c with contentOrder := new }.Obeys P := hs card c hc
    exact ⟨hs.putCard hsame, trivial⟩
  | updateCard new old =>
    obtain ⟨c, hc, rfl, rfl⟩ := apply_updateCard.1 ha
    have hnew : { c with title := new.title, properties := new.properties }.Obeys P := ho
    exact ⟨hs.putCard hnew, hs _ c hc⟩
  | setProperty card templateId old new =>
    obtain ⟨c, hc, rfl, rfl⟩ := apply_setProperty.1 ha
    exact ⟨hs.putCard ((hs card c hc).alter ho), hs card c hc templateId⟩

/-- a group, and the group that takes it back: by induction on its members -/
theorem obeys_applyGroup {t : Store} {ms inverses : List Mutation} (hs : s.Obeys P) (hms : ∀ m ∈ ms, m.change.Obeys P)
    (hg : applyGroup now s ms = .ok (t, inverses)) : t.Obeys P ∧ ∀ m ∈ inverses, m.change.Obeys P := by
  induction ms generalizing s inverses with
  | nil =>
    cases hg
    exact ⟨hs, by simp⟩
  | cons m ms ih =>
    obtain ⟨u, back, rest, hm, hrest, rfl⟩ := applyGroup_cons_eq_ok_iff.1 hg
    obtain ⟨hu, hback⟩ := Change.Obeys.apply hs (hms m List.mem_cons_self) (Mutation.apply_eq_ok_iff.1 hm).1
    obtain ⟨ht, hinverses⟩ := ih hu (fun x hx => hms x (List.mem_cons_of_mem _ hx)) hrest
    refine ⟨ht, fun x hx => ?_⟩
    rcases List.mem_append.1 hx with hx | hx
    · exact hinverses x hx
    · obtain rfl := List.mem_singleton.1 hx
      exact hback

/-! ## Steps of a history -/

namespace History

variable {h h' : History} {ms : List Mutation} {description : String}

theorem obeys_empty : empty.Obeys P :=
  ⟨fun id c hc => by simp [empty] at hc, fun _ hstep => absurd hstep List.not_mem_nil,
    fun _ hstep => absurd hstep List.not_mem_nil⟩

theorem obeys_push {steps : List UndoStep} (hsteps : ∀ step ∈ steps, ∀ m ∈ step.mutations, m.change.Obeys P)
    (hms : ∀ m ∈ ms, m.change.Obeys P) (description : String) :
    ∀ step ∈ (⟨description, ms⟩ : UndoStep) :: steps, ∀ m ∈ step.mutations, m.change.Obeys P := by
  intro step hstep
  rcases List.mem_cons.1 hstep with rfl | hstep
  · exact hms
  · exact hsteps step hstep

theorem Obeys.insertCard (ho : h.Obeys P) (hc : c.Obeys P) : (h.insertCard c).Obeys P :=
  ⟨ho.store.putCard hc, ho.undos, ho.redos⟩

theorem Obeys.commit (ho : h.Obeys P) (hms : ∀ m ∈ ms, m.change.Obeys P) (hc : h.commit now ms = .ok h') :
    h'.Obeys P := by
  cases ms with
  | nil =>
    cases hc
    exact ho
  | cons m ms =>
    obtain ⟨t, inverses, hg, rfl⟩ := (commit_eq_ok_iff (by simp)).1 hc
    obtain ⟨ht, hinverses⟩ := obeys_applyGroup ho.store hms hg
    exact ⟨ht, obeys_push ho.undos hinverses _, by simp⟩

theorem Obeys.undo (ho : h.Obeys P) (hu : h.undo now = .ok (h', description)) : h'.Obeys P := by
  obtain ⟨step, rest, t, inverses, hsteps, hg, rfl, rfl⟩ := undo_eq_ok_iff.1 hu
  have hall := hsteps ▸ ho.undos
  obtain ⟨ht, hinverses⟩ := obeys_applyGroup ho.store (hall step List.mem_cons_self) hg
  exact ⟨ht, fun x hx => hall x (List.mem_cons_of_mem _ hx), obeys_push ho.redos hinverses _⟩

theorem Obeys.redo (ho : h.Obeys P) (hr : h.redo now = .ok (h', description)) : h'.Obeys P := by
  obtain ⟨step, rest, t, inverses, hsteps, hg, rfl, rfl⟩ := redo_eq_ok_iff.1 hr
  have hall := hsteps ▸ ho.redos
  obtain ⟨ht, hinverses⟩ := obeys_applyGroup ho.store (hall step List.mem_cons_self) hg
  exact ⟨ht, obeys_push ho.undos hinverses _, fun x hx => hall x (List.mem_cons_of_mem _ hx)⟩

end History

/-! ## Content calls -/

/-- the group of an edit carries no value -/
theorem OrderEdit.obeys_group {e : OrderEdit} {read : Card} {group : List Mutation} {order : List Uuid}
    (hg : e.group read = .ok (group, order)) : ∀ m ∈ group, m.change.Obeys P := by
  obtain ⟨-, rfl⟩ := group_eq_ok_iff.1 hg
  cases e <;> simp [changes, Change.Obeys]

theorem Task.Acts.obeys {w : Ambient} {card : Uuid} {h h' : History} {p p' : Phase} (ha : Task.Acts w card h p h' p')
    (ho : h.Obeys P) : h'.Obeys P := by
  cases ha with
  | quiet _ => exact ho
  | replaced hc => exact ho.commit (by simp [Change.Obeys]) hc
  | edited hg hc => exact ho.commit (OrderEdit.obeys_group hg) hc

end Corkboard
