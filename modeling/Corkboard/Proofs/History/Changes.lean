/-
What changes and groups of changes do.

For each kind of change one equivalence says exactly when it applies, to which store it leads, and which change takes it
back. A group applies exactly when its members apply one after the other, and its inverses come out last first
(`applyGroup_cons_eq_ok_iff`, `applyGroup_append_eq_ok_iff`).
-/
import Corkboard.History
import Corkboard.Proofs.Store.Writes

namespace Corkboard

namespace Change

/-! ## One change -/

section Kinds

variable {now : Int} {s s' : Store} {back : Change}

theorem apply_insertBlock {b : Block} : (insertBlock b).apply now s = .ok (s', back) ↔
    s.block? b.id = none ∧ (s.card? b.parentId).isSome ∧ s' = s.putBlock b ∧ back = deleteBlock b := by
  simp only [apply, bind_eq_ok_iff, Store.insertBlock_eq_ok_iff, Except.ok.injEq, Prod.mk.injEq]
  constructor
  · intro h
    obtain ⟨_, ⟨hn, hc, rfl⟩, rfl, rfl⟩ := h
    exact ⟨hn, hc, rfl, rfl⟩
  · intro h
    obtain ⟨hn, hc, rfl, rfl⟩ := h
    exact ⟨_, ⟨hn, hc, rfl⟩, rfl, rfl⟩

theorem apply_updateBlock {new old : Block} : (updateBlock new old).apply now s = .ok (s', back) ↔
    ∃ x, s.block? new.id = some x ∧ s' = s.putBlock { new with updatedAt := now } ∧
      back = updateBlock x { new with updatedAt := now } := by
  have hnew : (s.putBlock { new with updatedAt := now }).needBlock new.id = .ok { new with updatedAt := now } := by
    rw [Store.needBlock_eq_ok_iff, Store.block?_putBlock, if_pos rfl]
  simp only [apply, bind_eq_ok_iff, Prod.exists, Store.updateBlock_eq_ok_iff]
  constructor
  · intro h
    obtain ⟨_, x, ⟨hx, rfl⟩, _, hcur, h⟩ := h
    rw [hnew] at hcur
    cases hcur; cases h
    exact ⟨x, hx, rfl, rfl⟩
  · intro h
    obtain ⟨x, hx, rfl, rfl⟩ := h
    exact ⟨_, x, ⟨hx, rfl⟩, _, hnew, rfl⟩

theorem apply_deleteBlock {b : Block} : (deleteBlock b).apply now s = .ok (s', back) ↔
    ∃ x, s.block? b.id = some x ∧ s' = s.dropBlock b.id ∧ back = insertBlock x := by
  simp only [apply, bind_eq_ok_iff, Prod.exists, Store.removeBlock_eq_ok_iff, Except.ok.injEq, Prod.mk.injEq]
  constructor
  · intro h
    obtain ⟨_, x, ⟨hx, rfl⟩, rfl, rfl⟩ := h
    exact ⟨x, hx, rfl, rfl⟩
  · intro h
    obtain ⟨x, hx, rfl, rfl⟩ := h
    exact ⟨_, x, ⟨hx, rfl⟩, rfl, rfl⟩

theorem apply_changeOrder {card : Uuid} {old new : List Uuid} :
    (changeOrder card old new).apply now s = .ok (s', back) ↔
      ∃ c, s.card? card = some c ∧ c.contentOrder = old ∧ s.Consistent card new ∧
        s' = s.putCard { c with contentOrder := new } ∧ back = changeOrder card new old := by
  simp only [apply, bind_eq_ok_iff, Prod.exists, Store.swapOrder_eq_ok_iff, Except.ok.injEq, Prod.mk.injEq]
  constructor
  · intro h
    obtain ⟨_, _, ⟨c, hc, ho, rfl, hnew, rfl⟩, rfl, rfl⟩ := h
    exact ⟨c, hc, ho, hnew, rfl, rfl⟩
  · intro h
    obtain ⟨c, hc, ho, hnew, rfl, rfl⟩ := h
    exact ⟨_, _, ⟨c, hc, ho, rfl, hnew, rfl⟩, rfl, rfl⟩

theorem apply_updateCard {new old : Card} : (updateCard new old).apply now s = .ok (s', back) ↔
    ∃ c, s.card? new.id = some c ∧ s' = s.putCard { c with title := new.title, properties := new.properties } ∧
      back = updateCard c new := by
  simp only [apply, bind_eq_ok_iff, Prod.exists, Store.updateCard_eq_ok_iff, Except.ok.injEq, Prod.mk.injEq]
  constructor
  · intro h
    obtain ⟨_, c, ⟨hc, rfl⟩, rfl, rfl⟩ := h
    exact ⟨c, hc, rfl, rfl⟩
  · intro h
    obtain ⟨c, hc, rfl, rfl⟩ := h
    exact ⟨_, c, ⟨hc, rfl⟩, rfl, rfl⟩

theorem apply_setProperty {card : Uuid} {templateId : String} {old new : Option Json} :
    (setProperty card templateId old new).apply now s = .ok (s', back) ↔
      ∃ c, s.card? card = some c ∧ s' = s.putCard { c with properties := c.properties.alter templateId new } ∧
        back = setProperty card templateId new (c.property? templateId) := by
  simp only [apply, bind_eq_ok_iff, Prod.exists, Store.setProperty_eq_ok_iff, Except.ok.injEq, Prod.mk.injEq]
  constructor
  · intro h
    obtain ⟨_, _, ⟨c, hc, rfl, rfl⟩, rfl, rfl⟩ := h
    exact ⟨c, hc, rfl, rfl⟩
  · intro h
    obtain ⟨c, hc, rfl, rfl⟩ := h
    exact ⟨_, _, ⟨c, hc, rfl, rfl⟩, rfl, rfl⟩

end Kinds

end Change

/-! ## Groups -/

theorem Mutation.apply_eq_ok_iff {now : Int} {s s' : Store} {m back : Mutation} :
    m.apply now s = .ok (s', back) ↔ m.change.apply now s = .ok (s', back.change) ∧
      back.description = m.description := by
  simp only [Mutation.apply, bind_eq_ok_iff, Prod.exists, Except.ok.injEq, Prod.mk.injEq]
  constructor
  · intro h
    obtain ⟨_, _, h, rfl, rfl⟩ := h
    exact ⟨h, rfl⟩
  · intro h
    obtain ⟨h, hd⟩ := h
    exact ⟨s', back.change, h, rfl, by cases back; simp_all⟩

/-- the inverses that were there before stay at the end -/
theorem applyFrom_eq (now : Int) (s : Store) (inverses ms : List Mutation) :
    applyFrom now s inverses ms = (applyGroup now s ms).map fun r => (r.1, r.2 ++ inverses) := by
  unfold applyGroup
  induction ms generalizing s inverses with
  | nil => rfl
  | cons m ms ih =>
    simp only [applyFrom]
    cases m.apply now s with
    | error e => rfl
    | ok r =>
      simp only [bind, Except.bind]
      rw [ih r.1 (r.2 :: inverses), ih r.1 [r.2]]
      cases applyFrom now r.1 [] ms with
      | error e => rfl
      | ok r' => simp [Except.map]

theorem applyGroup_cons_eq_ok_iff {now : Int} {s t : Store} {m : Mutation} {ms inverses : List Mutation} :
    applyGroup now s (m :: ms) = .ok (t, inverses) ↔
      ∃ u back rest, m.apply now s = .ok (u, back) ∧ applyGroup now u ms = .ok (t, rest) ∧
          inverses = rest ++ [back] := by
  have hcons : applyGroup now s (m :: ms) = m.apply now s >>= fun r => applyFrom now r.1 [r.2] ms := rfl
  rw [hcons, bind_eq_ok_iff]
  constructor
  · intro h
    obtain ⟨⟨u, back⟩, hu, h⟩ := h
    rw [applyFrom_eq] at h
    cases hg : applyGroup now u ms with
    | error e => simp [hg, Except.map] at h
    | ok r =>
      simp only [hg, Except.map, Except.ok.injEq, Prod.mk.injEq] at h
      obtain ⟨rfl, rfl⟩ := h
      exact ⟨u, back, r.2, hu, hg, rfl⟩
  · intro h
    obtain ⟨u, back, rest, hu, hg, rfl⟩ := h
    exact ⟨(u, back), hu, by rw [applyFrom_eq, hg]; rfl⟩

theorem applyGroup_singleton_eq_ok_iff {now : Int} {s t : Store} {m : Mutation} {inverses : List Mutation} :
    applyGroup now s [m] = .ok (t, inverses) ↔ ∃ back, m.apply now s = .ok (t, back) ∧ inverses = [back] := by
  rw [applyGroup_cons_eq_ok_iff]
  constructor
  · intro h
    obtain ⟨u, back, rest, hm, hnil, rfl⟩ := h
    cases hnil
    exact ⟨back, hm, rfl⟩
  · intro h
    obtain ⟨back, hm, rfl⟩ := h
    exact ⟨t, back, [], hm, rfl, rfl⟩

/-- A group of two parts applies exactly when the second part applies after the first. -/
theorem applyGroup_append_eq_ok_iff {now : Int} {s t : Store} {xs ys inverses : List Mutation} :
    applyGroup now s (xs ++ ys) = .ok (t, inverses) ↔
      ∃ u first second, applyGroup now s xs = .ok (u, first) ∧ applyGroup now u ys = .ok (t, second) ∧
        inverses = second ++ first := by
  induction xs generalizing s inverses with
  | nil =>
    constructor
    · intro h; exact ⟨s, [], inverses, rfl, h, by simp⟩
    · intro h
      obtain ⟨u, first, second, hu, h, rfl⟩ := h
      cases hu
      simpa using h
  | cons m xs ih =>
    rw [List.cons_append, applyGroup_cons_eq_ok_iff]
    constructor
    · intro h
      obtain ⟨u, back, rest, hm, h, rfl⟩ := h
      obtain ⟨v, first, second, hxs, hys, rfl⟩ := ih.1 h
      exact ⟨v, first ++ [back], second, applyGroup_cons_eq_ok_iff.2 ⟨u, back, first, hm, hxs, rfl⟩, hys, by simp⟩
    · intro h
      obtain ⟨v, _, second, hxs, hys, rfl⟩ := h
      obtain ⟨u, back, first, hm, hfirst, rfl⟩ := applyGroup_cons_eq_ok_iff.1 hxs
      exact ⟨u, back, second ++ first, hm, ih.2 ⟨v, first, second, hfirst, hys, rfl⟩, by simp⟩

/-! ## Cards stay -/

theorem Store.isSome_card?_putCard {s : Store} {id : Uuid} (hid : (s.card? id).isSome) (c : Card) :
    ((s.putCard c).card? id).isSome := by
  rw [Store.card?_putCard]
  split
  · rfl
  · exact hid

/-- no change takes a card away -/
theorem Change.isSome_card? {now : Int} {s s' : Store} {ch back : Change} (h : ch.apply now s = .ok (s', back))
    {id : Uuid} (hid : (s.card? id).isSome) : (s'.card? id).isSome := by
  cases ch with
  | insertBlock b =>
    obtain ⟨-, -, rfl, -⟩ := apply_insertBlock.1 h
    exact hid
  | updateBlock new old =>
    obtain ⟨-, -, rfl, -⟩ := apply_updateBlock.1 h
    exact hid
  | deleteBlock b =>
    obtain ⟨-, -, rfl, -⟩ := apply_deleteBlock.1 h
    exact hid
  | changeOrder card old new =>
    obtain ⟨-, -, -, -, rfl, -⟩ := apply_changeOrder.1 h
    exact Store.isSome_card?_putCard hid _
  | updateCard new old =>
    obtain ⟨-, -, rfl, -⟩ := apply_updateCard.1 h
    exact Store.isSome_card?_putCard hid _
  | setProperty card templateId old new =>
    obtain ⟨-, -, rfl, -⟩ := apply_setProperty.1 h
    exact Store.isSome_card?_putCard hid _

theorem isSome_card?_of_applyGroup {now : Int} {s t : Store} {ms inverses : List Mutation}
    (h : applyGroup now s ms = .ok (t, inverses)) {id : Uuid} (hid : (s.card? id).isSome) : (t.card? id).isSome := by
  induction ms generalizing s inverses with
  | nil =>
    cases h
    exact hid
  | cons m ms ih =>
    obtain ⟨u, back, rest, hm, hrest, -⟩ := applyGroup_cons_eq_ok_iff.1 h
    exact ih hrest (Change.isSome_card? (Mutation.apply_eq_ok_iff.1 hm).1 hid)

end Corkboard
