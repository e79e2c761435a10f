/-
Taking a group of changes back.

`Change.Links s t` says that a change takes one store to another and that its inverse will be accepted on the way back;
`Leads` chains it over a group. Both speak of stores up to the times of last changes.

- `Leads.apply`: such a group applies to every store like the first one, reaches a store like the second, and yields a
  group that leads back. So undo and redo may alternate for ever.
- `Retraceable`: what a group must respect at each of its changes. An order may be replaced only while it is consistent,
  and a block may be taken out only while its card is there. `leads_iff_retraceable`: of an accepted group nothing else
  is asked, and nothing less.
-/
import Corkboard.Proofs.History.Changes
import Corkboard.Proofs.Store.Alike

namespace Corkboard

open Store (card?_putCard block?_putBlock block?_dropBlock id_of_card? id_of_block?)

/-! ## One change -/

/-- the change takes the first store to one like the second, and what it replaces can be put back -/
def Change.Links (s t : Store) : Change → Prop
  | .insertBlock b => s.block? b.id = none ∧ (s.card? b.parentId).isSome ∧ t.Alike (s.putBlock b)
  | .updateBlock new _ => (s.block? new.id).isSome ∧ t.Alike (s.putBlock new)
  | .deleteBlock b => ∃ x, s.block? b.id = some x ∧ (s.card? x.parentId).isSome ∧ t.Alike (s.dropBlock b.id)
  | .changeOrder card old new => ∃ c, s.card? card = some c ∧ c.contentOrder = old ∧ s.Consistent card old ∧
      s.Consistent card new ∧ t.Alike (s.putCard { c with contentOrder := new })
  | .updateCard new _ => ∃ c, s.card? new.id = some c ∧
      t.Alike (s.putCard { c with title := new.title, properties := new.properties })
  | .setProperty card templateId _ new => ∃ c, s.card? card = some c ∧
      t.Alike (s.putCard { c with properties := c.properties.alter templateId new })

/-- what a change must find besides what it checks itself, so that it can be taken back -/
def Change.Restorable (s : Store) : Change → Prop
  | .deleteBlock b => ∀ x, s.block? b.id = some x → (s.card? x.parentId).isSome
  | .changeOrder card old _ => s.Consistent card old
  | _ => True

namespace Change

variable {s s' t t' : Store} {ch : Change}

theorem Links.congr (h : ch.Links s t) (hs : s'.Alike s) (ht : t'.Alike t) : ch.Links s' t' := by
  cases ch with
  | insertBlock b =>
    obtain ⟨hn, hc, ha⟩ := h
    exact ⟨hs.block?_eq_none hn, by rwa [hs.cards], ht.trans (ha.trans (hs.symm.putBlock rfl))⟩
  | updateBlock new old =>
    obtain ⟨hb, ha⟩ := h
    exact ⟨by rwa [hs.isSome_block?], ht.trans (ha.trans (hs.symm.putBlock rfl))⟩
  | deleteBlock b =>
    obtain ⟨x, hx, hc, ha⟩ := h
    obtain ⟨x', hx', he⟩ := hs.exists_block? hx
    exact ⟨x', hx', by rwa [hs.cards, Block.parentId_eq_of_unstamped he], ht.trans (ha.trans (hs.symm.dropBlock _))⟩
  | changeOrder card old new =>
    obtain ⟨c, hc, ho, hold, hnew, ha⟩ := h
    exact ⟨c, by rwa [hs.cards], ho, hs.consistent hold, hs.consistent hnew, ht.trans (ha.trans (hs.symm.putCard _))⟩
  | updateCard new old =>
    obtain ⟨c, hc, ha⟩ := h
    exact ⟨c, by rwa [hs.cards], ht.trans (ha.trans (hs.symm.putCard _))⟩
  | setProperty card templateId old new =>
    obtain ⟨c, hc, ha⟩ := h
    exact ⟨c, by rwa [hs.cards], ht.trans (ha.trans (hs.symm.putCard _))⟩

/-- an accepted change links its stores if what it replaces can be put back -/
theorem links_of_apply {now : Int} {back : Change} (h : ch.apply now s = .ok (t, back)) (hr : ch.Restorable s) :
    ch.Links s t := by
  cases ch with
  | insertBlock b =>
    obtain ⟨hn, hc, rfl, -⟩ := apply_insertBlock.1 h
    exact ⟨hn, hc, .refl _⟩
  | updateBlock new old =>
    obtain ⟨x, hx, rfl, -⟩ := apply_updateBlock.1 h
    exact ⟨by simp [hx], (Store.Alike.refl s).putBlock rfl⟩
  | deleteBlock b =>
    obtain ⟨x, hx, rfl, -⟩ := apply_deleteBlock.1 h
    exact ⟨x, hx, hr x hx, .refl _⟩
  | changeOrder card old new =>
    obtain ⟨c, hc, ho, hnew, rfl, -⟩ := apply_changeOrder.1 h
    exact ⟨c, hc, ho, hr, hnew, .refl _⟩
  | updateCard new old =>
    obtain ⟨c, hc, rfl, -⟩ := apply_updateCard.1 h
    exact ⟨c, hc, .refl _⟩
  | setProperty card templateId old new =>
    obtain ⟨c, hc, rfl, -⟩ := apply_setProperty.1 h
    exact ⟨c, hc, .refl _⟩

/-- **One step and its way back.** A change that links two stores applies to the first, reaches a store like the second,
and the inverse it yields links them the other way. -/
theorem Links.apply (h : ch.Links s t) (now : Int) :
    ∃ t' back, ch.apply now s = .ok (t', back) ∧ t'.Alike t ∧ back.Links t s := by
  suffices hs : ∃ t' back, ch.apply now s = .ok (t', back) ∧ t.Alike t' ∧ back.Links t' s by
    obtain ⟨t', back, happ, ha, hl⟩ := hs
    exact ⟨t', back, happ, ha.symm, hl.congr ha (.refl s)⟩
  cases ch with
  | insertBlock b =>
    obtain ⟨hn, hc, ha⟩ := h
    refine ⟨_, _, apply_insertBlock.2 ⟨hn, hc, rfl, rfl⟩, ha, b, by simp [block?_putBlock], hc, ?_⟩
    exact .of_eq (Eq.symm (Store.dropBlock_putBlock hn))
  | updateBlock new old =>
    obtain ⟨hb, ha⟩ := h
    obtain ⟨x, hx⟩ := Option.isSome_iff_exists.1 hb
    have hid := id_of_block? hx
    refine ⟨_, _, apply_updateBlock.2 ⟨x, hx, rfl, rfl⟩, ha.trans ((Store.Alike.refl s).putBlock rfl), ?_, ?_⟩
    · simp [block?_putBlock, hid]
    · exact .of_eq (Eq.symm (Store.putBlock_putBlock (by rw [hid, hx]) hid.symm))
  | deleteBlock b =>
    obtain ⟨x, hx, hc, ha⟩ := h
    have hid := id_of_block? hx
    refine ⟨_, _, apply_deleteBlock.2 ⟨x, hx, rfl, rfl⟩, ha, ?_, hc, ?_⟩
    · simp [block?_dropBlock, hid]
    · rw [← hid]
      exact .of_eq (Eq.symm (Store.putBlock_dropBlock (by rw [hid, hx])))
  | changeOrder card old new =>
    obtain ⟨c, hc, rfl, hold, hnew, ha⟩ := h
    obtain rfl := id_of_card? hc
    refine ⟨_, _, apply_changeOrder.2 ⟨c, hc, rfl, hnew, rfl, rfl⟩, ha, { c with contentOrder := new }, ?_, rfl,
      ⟨hnew.nodup, hnew.owned⟩, ⟨hold.nodup, hold.owned⟩, ?_⟩
    · rw [card?_putCard, if_pos rfl]
    · exact .of_eq (Eq.symm (Store.putCard_putCard hc rfl))
  | updateCard new old =>
    obtain ⟨c, hc, ha⟩ := h
    have hown : s.card? c.id = some c := by rw [id_of_card? hc, hc]
    refine ⟨_, _, apply_updateCard.2 ⟨c, hc, rfl, rfl⟩, ha,
      { c with title := new.title, properties := new.properties }, by rw [card?_putCard, if_pos rfl], ?_⟩
    exact .of_eq (Eq.symm (Store.putCard_putCard hown rfl))
  | setProperty card templateId old new =>
    obtain ⟨c, hc, ha⟩ := h
    obtain rfl := id_of_card? hc
    refine ⟨_, _, apply_setProperty.2 ⟨c, hc, rfl, rfl⟩, ha, { c with properties := c.properties.alter templateId new },
      by rw [card?_putCard, if_pos rfl], ?_⟩
    simp only [Card.property?, Table.alter_alter_get?]
    exact .of_eq (Eq.symm (Store.putCard_putCard hc rfl))

/-- a change that was taken back had found all it needed -/
theorem restorable_of_apply_back {now later : Int} {back forth : Change} (h : ch.apply now s = .ok (t, back))
    (ht : t'.Alike t) (hb : back.apply later t' = .ok (s', forth)) : ch.Restorable s := by
  cases ch with
  | deleteBlock b =>
    obtain ⟨x, hx, rfl, rfl⟩ := apply_deleteBlock.1 h
    obtain ⟨-, hc, -, -⟩ := apply_insertBlock.1 hb
    intro y hy
    rw [hx] at hy; cases hy
    rwa [ht.cards] at hc
  | changeOrder card old new =>
    obtain ⟨c, hc, ho, hnew, rfl, rfl⟩ := apply_changeOrder.1 h
    obtain ⟨-, -, -, hold, -, -⟩ := apply_changeOrder.1 hb
    have := ht.symm.consistent hold
    exact ⟨this.nodup, this.owned⟩
  | insertBlock b => trivial
  | updateBlock new old => trivial
  | updateCard new old => trivial
  | setProperty card templateId old new => trivial

end Change

/-! ## Groups -/

/-- a group takes the first store to one like the second, and each of its changes can be taken back -/
inductive Leads : List Mutation → Store → Store → Prop
  | nil {s t : Store} : t.Alike s → Leads [] s t
  | cons {s u t : Store} {m : Mutation} {ms : List Mutation} : m.change.Links s u → Leads ms u t → Leads (m :: ms) s t

namespace Leads

variable {s s' t t' u : Store} {xs ys ms : List Mutation}

theorem congr_left (h : Leads ms s t) (hs : s'.Alike s) : Leads ms s' t := by
  cases h with
  | nil ha => exact .nil (ha.trans hs.symm)
  | cons hl hr => exact .cons (hl.congr hs (.refl _)) hr

theorem congr_right (h : Leads ms s t) (ht : t'.Alike t) : Leads ms s t' := by
  induction h with
  | nil ha => exact .nil (ht.trans ha)
  | cons hl _ ih => exact .cons hl (ih ht)

theorem append (h : Leads xs s u) (h' : Leads ys u t) : Leads (xs ++ ys) s t := by
  induction h with
  | nil ha => exact h'.congr_left ha.symm
  | cons hl _ ih => exact .cons hl (ih h')

/-- **A group and its way back.** A group that leads from one store to another applies to the first, reaches a store
like the second, and its inverses lead back. -/
theorem apply (h : Leads ms s t) (now : Int) :
    ∃ t' inverses, applyGroup now s ms = .ok (t', inverses) ∧ t'.Alike t ∧ Leads inverses t s := by
  induction ms generalizing s with
  | nil =>
    obtain ⟨ha⟩ := h
    exact ⟨s, [], rfl, ha.symm, .nil ha.symm⟩
  | cons m ms ih =>
    rcases h with _ | ⟨hl, hr⟩
    obtain ⟨u, back, hm, hu, hb⟩ := hl.apply now
    obtain ⟨t', rest, hg, ht, hrest⟩ := ih (hr.congr_left hu)
    have happ : m.apply now s = .ok (u, ⟨back, m.description⟩) := Mutation.apply_eq_ok_iff.2 ⟨hm, rfl⟩
    refine ⟨t', rest ++ [⟨back, m.description⟩], applyGroup_cons_eq_ok_iff.2 ⟨u, _, rest, happ, hg, rfl⟩, ht, ?_⟩
    exact hrest.append (.cons (hb.congr hu (.refl s)) (.nil (.refl s)))

end Leads

/-! ## What a group must respect -/

/-- every change of a group finds, where it comes, what it needs to be taken back -/
def Retraceable (now : Int) (s : Store) : List Mutation → Prop
  | [] => True
  | m :: ms => m.change.Restorable s ∧ ∀ u back, m.apply now s = .ok (u, back) → Retraceable now u ms

section Groups

variable {now later : Int} {s s' t t' : Store} {ms inverses forth : List Mutation}

theorem leads_of_retraceable (h : applyGroup now s ms = .ok (t, inverses)) (hr : Retraceable now s ms) :
    Leads ms s t := by
  induction ms generalizing s inverses with
  | nil => cases h; exact .nil (.refl _)
  | cons m ms ih =>
    obtain ⟨u, back, rest, hm, hg, -⟩ := applyGroup_cons_eq_ok_iff.1 h
    obtain ⟨hc, hrest⟩ := hr
    exact .cons (Change.links_of_apply (Mutation.apply_eq_ok_iff.1 hm).1 hc) (ih hg (hrest u back hm))

/-- A group whose inverses were accepted afterwards could be taken back, and was. -/
theorem retraceable_of_taken_back (h : applyGroup now s ms = .ok (t, inverses)) (ht : t'.Alike t)
    (hb : applyGroup later t' inverses = .ok (s', forth)) : Retraceable now s ms ∧ s'.Alike s := by
  -- the inverse of the first mutation comes last, so the induction leaves it to be taken back by itself
  induction ms generalizing s s' inverses forth with
  | nil =>
    cases h; cases hb
    exact ⟨trivial, ht⟩
  | cons m ms ih =>
    obtain ⟨u, back, rest, hm, hg, rfl⟩ := applyGroup_cons_eq_ok_iff.1 h
    obtain ⟨u', first, second, hrest, hback, -⟩ := applyGroup_append_eq_ok_iff.1 hb
    obtain ⟨hr, hu⟩ := ih hg hrest
    obtain ⟨hchange, -⟩ := Mutation.apply_eq_ok_iff.1 hm
    obtain ⟨back', hb', -⟩ := applyGroup_singleton_eq_ok_iff.1 hback
    obtain ⟨hb', -⟩ := Mutation.apply_eq_ok_iff.1 hb'
    have hc : m.change.Restorable s := Change.restorable_of_apply_back hchange hu hb'
    refine ⟨⟨hc, fun u₂ back₂ h₂ => ?_⟩, ?_⟩
    · rw [hm] at h₂; cases h₂
      exact hr
    · obtain ⟨u₂, back₂, happ, -, hl⟩ := (Change.links_of_apply hchange hc).apply now
      rw [hchange] at happ; cases happ
      obtain ⟨s₂, forth₂, happ, ha, -⟩ := (hl.congr hu (.refl s)).apply later
      rw [hb'] at happ; cases happ
      exact ha

/-- Of an accepted group nothing else is asked than that it is retraceable, and nothing less. -/
theorem leads_iff_retraceable (h : applyGroup now s ms = .ok (t, inverses)) : Leads ms s t ↔ Retraceable now s ms := by
  refine ⟨fun hl => ?_, leads_of_retraceable h⟩
  obtain ⟨t₂, inverses₂, happ, -, hback⟩ := hl.apply now
  rw [h] at happ; cases happ
  obtain ⟨s', forth, hb, -, -⟩ := hback.apply now
  exact (retraceable_of_taken_back h (.refl t) hb).1

end Groups

end Corkboard
