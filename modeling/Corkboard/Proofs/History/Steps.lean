/-
Steps of a history.

What a commit, an undo and a redo do is read off one equivalence for each, and from `Leads` follows when a step can be
taken back.

- `undo_redo_after_commit`: immediately after an accepted group, undo and redo go back and forth between the stores
  before and after it if the group is retraceable. If it is not, undo is refused at any time.
- `delete_before_unlist_stuck`: a group of the second kind, between two tidy stores.
-/
import Corkboard.Proofs.History.Retrace

namespace Corkboard

/-- every order is consistent and every block has its card -/
structure Store.Tidy (s : Store) : Prop where
  orders : ∀ id c, s.card? id = some c → s.Consistent id c.contentOrder
  parents : ∀ id b, s.block? id = some b → (s.card? b.parentId).isSome

namespace History

/-! ## One step -/

section Steps

variable {now : Int} {h h' : History} {description : String} {ms : List Mutation}

theorem commit_eq_ok_iff (hne : ms ≠ []) : h.commit now ms = .ok h' ↔
    ∃ t inverses, applyGroup now h.store ms = .ok (t, inverses) ∧
      h' = ⟨t, ⟨(ms.head hne).description, inverses⟩ :: h.undos, []⟩ := by
  cases ms with
  | nil => exact absurd rfl hne
  | cons m ms =>
    simp only [commit]
    constructor
    · intro hc
      split at hc
      · rename_i t inverses hg
        cases hc
        exact ⟨t, inverses, hg, rfl⟩
      · cases hc
    · intro h
      obtain ⟨t, inverses, hg, rfl⟩ := h
      simp only [hg, List.head_cons]

theorem undo_eq_ok_iff : h.undo now = .ok (h', description) ↔
    ∃ step rest t inverses, h.undos = step :: rest ∧ applyGroup now h.store step.mutations = .ok (t, inverses) ∧
      description = step.description ∧ h' = ⟨t, rest, ⟨step.description, inverses⟩ :: h.redos⟩ := by
  unfold undo
  constructor
  · intro hu
    split at hu
    · cases hu
    · rename_i step rest hsteps
      split at hu
      · rename_i t inverses hg
        cases hu
        exact ⟨step, rest, t, inverses, hsteps, hg, rfl, rfl⟩
      · cases hu
  · intro h
    obtain ⟨step, rest, t, inverses, hsteps, hg, rfl, rfl⟩ := h
    simp only [hsteps, hg]

theorem redo_eq_ok_iff : h.redo now = .ok (h', description) ↔
    ∃ step rest t inverses, h.redos = step :: rest ∧ applyGroup now h.store step.mutations = .ok (t, inverses) ∧
      description = step.description ∧ h' = ⟨t, ⟨step.description, inverses⟩ :: h.undos, rest⟩ := by
  unfold redo
  constructor
  · intro hr
    split at hr
    · cases hr
    · rename_i step rest hsteps
      split at hr
      · rename_i t inverses hg
        cases hr
        exact ⟨step, rest, t, inverses, hsteps, hg, rfl, rfl⟩
      · cases hr
  · intro h
    obtain ⟨step, rest, t, inverses, hsteps, hg, rfl, rfl⟩ := h
    simp only [hsteps, hg]

/-- every card of one history is in the other -/
def Retains (h h' : History) : Prop := ∀ id, (h.store.card? id).isSome → (h'.store.card? id).isSome

theorem retains_commit (hc : h.commit now ms = .ok h') : h.Retains h' := by
  intro id hid
  cases ms with
  | nil =>
    cases hc
    exact hid
  | cons m ms =>
    obtain ⟨t, inverses, hg, rfl⟩ := (commit_eq_ok_iff (by simp)).1 hc
    exact isSome_card?_of_applyGroup hg hid

theorem retains_undo (hu : h.undo now = .ok (h', description)) : h.Retains h' := by
  intro id hid
  obtain ⟨step, rest, t, inverses, -, hg, -, rfl⟩ := undo_eq_ok_iff.1 hu
  exact isSome_card?_of_applyGroup hg hid

theorem retains_redo (hr : h.redo now = .ok (h', description)) : h.Retains h' := by
  intro id hid
  obtain ⟨step, rest, t, inverses, -, hg, -, rfl⟩ := redo_eq_ok_iff.1 hr
  exact isSome_card?_of_applyGroup hg hid

end Steps

/-! ## There and back -/

/-- **A group and the steps it makes.** Immediately after a group was accepted, undo and redo go back and forth between
the stores before and after it if the group is retraceable; if it is not, undo is refused whenever it is tried. -/
theorem undo_redo_after_commit {now : Int} {h h' : History} {ms : List Mutation} (hne : ms ≠ [])
    (hc : h.commit now ms = .ok h') :
    (Retraceable now h.store ms → ∀ later latest, ∃ back forth description,
      h'.undo later = .ok (back, description) ∧ back.store.Alike h.store ∧ back.undos = h.undos ∧
      back.redo latest = .ok (forth, description) ∧ forth.store.Alike h'.store ∧ forth.redos = []) ∧
    (¬ Retraceable now h.store ms → ∀ later, ∃ e, h'.undo later = .error (.store e)) := by
  obtain ⟨t, inverses, hg, rfl⟩ := (commit_eq_ok_iff hne).1 hc
  constructor
  · intro hr later latest
    obtain ⟨t₁, inverses₁, hg₁, -, hback⟩ := (leads_of_retraceable hg hr).apply now
    rw [hg] at hg₁; cases hg₁
    obtain ⟨s, again, hundo, hs, hforth⟩ := hback.apply later
    obtain ⟨t', back, hredo, ht, -⟩ := (hforth.congr_left hs).apply latest
    exact ⟨_, _, _, undo_eq_ok_iff.2 ⟨_, _, s, again, rfl, hundo, rfl, rfl⟩, hs, rfl,
      redo_eq_ok_iff.2 ⟨_, _, t', back, rfl, hredo, rfl, rfl⟩, ht, rfl⟩
  · intro hr later
    cases hb : applyGroup later t inverses with
    | ok r => exact absurd (retraceable_of_taken_back hg (.refl t) hb).1 hr
    | error e => exact ⟨e, by simp only [undo, hb]⟩

/-! ## A group that goes back and one that does not -/

namespace OneBlock

def card : Card := .fresh ⟨1⟩ ⟨900⟩ "t"

def block : Block := ⟨⟨10⟩, ⟨1⟩, ⟨900⟩, "text", .string "x", 10, 20⟩

def add : List Mutation :=
  [⟨.insertBlock block, "add"⟩, ⟨.changeOrder ⟨1⟩ [] [⟨10⟩], "add"⟩]

/-- the block taken out while it is still listed, and struck from the order afterwards -/
def delete : List Mutation :=
  [⟨.deleteBlock block, "delete"⟩, ⟨.changeOrder ⟨1⟩ [⟨10⟩] [], "delete"⟩]

def start : History := History.empty.insertCard card

def added : History :=
  ⟨(start.store.putBlock block).putCard { card with contentOrder := [⟨10⟩] },
    [⟨"add", [⟨.changeOrder ⟨1⟩ [⟨10⟩] [], "add"⟩, ⟨.deleteBlock block, "add"⟩]⟩], []⟩

def deleted : History :=
  ⟨(added.store.dropBlock ⟨10⟩).putCard card,
    ⟨"delete", [⟨.changeOrder ⟨1⟩ [] [⟨10⟩], "delete"⟩, ⟨.insertBlock block, "delete"⟩]⟩ :: added.undos, []⟩

theorem added_back_and_forth : start.commit 0 add = .ok added ∧ ∀ later latest, ∃ back forth description,
    added.undo later = .ok (back, description) ∧ back.store.Alike start.store ∧ back.undos = start.undos ∧
    back.redo latest = .ok (forth, description) ∧ forth.store.Alike added.store ∧ forth.redos = [] := by
  have hc : start.commit 0 add = .ok added := rfl
  have hr : Retraceable 0 start.store add :=
    ⟨trivial, fun _ _ _ => ⟨⟨List.nodup_nil, by simp⟩, fun _ _ _ => trivial⟩⟩
  exact ⟨hc, (undo_redo_after_commit (by simp [add]) hc).1 hr⟩

theorem tidy_start : start.store.Tidy := by
  refine ⟨fun id c hc => ?_, fun id b hb => by simp [start, insertCard, empty] at hb⟩
  simp only [start, insertCard, empty, Store.card?_putCard] at hc
  split at hc
  · cases hc
    exact ⟨List.nodup_nil, by simp [card, Card.fresh]⟩
  · simp at hc

theorem tidy_added : added.store.Tidy := by
  refine ⟨fun id c hc => ?_, fun id b hb => ?_⟩
  · simp only [added, start, insertCard, empty, Store.card?_putCard, Store.card?_putBlock] at hc
    split at hc
    · rename_i hid
      cases hc
      exact ⟨by decide, fun x hx => ⟨block, by simp_all [added, block, Store.block?_putBlock], hid.symm⟩⟩
    · simp_all
  · simp only [added, start, insertCard, empty, Store.block?_putCard, Store.block?_putBlock] at hb
    split at hb
    · cases hb; rfl
    · simp at hb

/-- **The order within a group matters.** A block deleted before its entry is struck leaves a step that is refused for
ever, between two tidy stores: the entry would come back while the block is still missing. -/
theorem delete_before_unlist_stuck : start.commit 0 add = .ok added ∧ added.store.Tidy ∧
    added.commit 0 delete = .ok deleted ∧ deleted.store.Tidy ∧
    ∀ later, deleted.undo later = .error (.store (.invalidOrder (.strayEntry ⟨10⟩))) := by
  have hsame : deleted.store = start.store := rfl
  exact ⟨rfl, tidy_added, rfl, hsame ▸ tidy_start, fun _ => rfl⟩

end OneBlock

end History

end Corkboard
