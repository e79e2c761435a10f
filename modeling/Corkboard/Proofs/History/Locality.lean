/-
Changes in a region, and what taking them back restores.

- `Change.apply_same`, `applyGroup_same`: changes of a region see nothing outside of it. On stores that are the same
  inside of the region they do the same.
- `eq_of_taken_back`: a group without the replacement of a block, taken back, leaves the very store it was applied to.
  `putBlock_of_taken_back`: the replacement of a block, taken back, leaves that store but for the time of the block's
  last change.
-/
import Corkboard.Proofs.History.Retrace
import Corkboard.Proofs.Store.Regions

namespace Corkboard

open Store (card?_putCard block?_putBlock block?_dropBlock id_of_card? id_of_block?)

/-! ## Writes inside of a region -/

namespace Region

variable {r : Region} {s t u : Store} {card : Uuid}

theorem Same.symm (h : r.Same s t) : r.Same t s := by
  cases r with
  | body card => exact ⟨h.1.symm, fun id b hb => (h.2 id b hb).symm⟩
  | property card templateId => exact Eq.symm h

theorem Same.trans (h : r.Same s t) (h' : r.Same t u) : r.Same s u := by
  cases r with
  | body card => exact ⟨h.1.trans h'.1, fun id b hb => (h.2 id b hb).trans (h'.2 id b hb)⟩
  | property card templateId => exact Eq.trans h h'

theorem Same.card? (h : (body card).Same s t) {c : Card} (hc : s.card? card = some c) :
    ∃ c', t.card? card = some c' ∧ c'.id = c.id ∧ c'.rootId = c.rootId ∧ c'.contentOrder = c.contentOrder := by
  have hmap := h.1
  rw [hc] at hmap
  obtain ⟨c', hc', hparts⟩ := Option.map_eq_some_iff.1 hmap.symm
  rw [Prod.mk.injEq] at hparts
  exact ⟨c', hc', (id_of_card? hc').trans (id_of_card? hc).symm, hparts⟩

theorem Same.property_card? {templateId : String} (h : (property card templateId).Same s t) {c : Card}
    (hc : s.card? card = some c) : ∃ c', t.card? card = some c' ∧ c'.id = c.id := by
  have hmap : (s.card? card).map (·.property? templateId) = (t.card? card).map (·.property? templateId) := h
  rw [hc] at hmap
  obtain ⟨c', hc', -⟩ := Option.map_eq_some_iff.1 hmap.symm
  exact ⟨c', hc', (id_of_card? hc').trans (id_of_card? hc).symm⟩

/-- orders are checked against the blocks of their card -/
theorem Same.consistent (h : (body card).Same s t) {order : List Uuid} (hc : s.Consistent card order) :
    t.Consistent card order := by
  refine ⟨hc.nodup, fun id hid => ?_⟩
  obtain ⟨b, hb, hp⟩ := hc.owned id hid
  exact ⟨b, (h.2 id b hp).1 hb, hp⟩

theorem Same.putBlock (h : (body card).Same s t) (b : Block) : (body card).Same (s.putBlock b) (t.putBlock b) := by
  refine ⟨h.1, fun id x hx => ?_⟩
  rw [block?_putBlock, block?_putBlock]
  split
  · exact Iff.rfl
  · exact h.2 id x hx

theorem Same.dropBlock (h : (body card).Same s t) (id : Uuid) : (body card).Same (s.dropBlock id) (t.dropBlock id) := by
  refine ⟨h.1, fun id' x hx => ?_⟩
  rw [block?_dropBlock, block?_dropBlock]
  split
  · exact Iff.rfl
  · exact h.2 id' x hx

theorem Same.putOrder (h : (body card).Same s t) {c c' : Card} (hc : s.card? card = some c)
    (hc' : t.card? card = some c') (order : List Uuid) :
    (body card).Same (s.putCard { c with contentOrder := order }) (t.putCard { c' with contentOrder := order }) := by
  obtain ⟨c'', hc'', hid, hroot, -⟩ := h.card? hc
  cases hc'.symm.trans hc''
  refine ⟨?_, h.2⟩
  rw [card?_putCard, card?_putCard, if_pos (id_of_card? hc).symm, if_pos (id_of_card? hc').symm]
  simp only [Option.map_some, hroot]

theorem Same.putProperty {templateId : String} {c c' : Card} (hc : s.card? card = some c) (hc' : t.card? card = some c')
    (v : Option Json) : (property card templateId).Same
      (s.putCard { c with properties := c.properties.alter templateId v })
      (t.putCard { c' with properties := c'.properties.alter templateId v }) := by
  simp only [Same]
  rw [card?_putCard, card?_putCard, if_pos (id_of_card? hc).symm, if_pos (id_of_card? hc').symm]
  simp only [Option.map_some, Card.property?, Table.get?_alter, if_true]

end Region

/-! ## Changes of a region -/

namespace Change

/-- the change reads and writes the region only, if its blocks are stored as blocks of the card -/
def In : Change → Region → Prop
  | insertBlock b, .body card => b.parentId = card
  | updateBlock _ _, .body _ | deleteBlock _, .body _ => True
  | changeOrder card _ _, .body card' => card = card'
  | setProperty card templateId _ _, .property card' templateId' => card = card' ∧ templateId = templateId'
  | _, _ => False

/-- what a change must find among the blocks: nothing under a new identifier, and something under one that it replaces
or takes out -/
def Finds (s : Store) : Change → Prop
  | insertBlock b => s.block? b.id = none
  | updateBlock new _ => (s.block? new.id).isSome
  | deleteBlock b => (s.block? b.id).isSome
  | _ => True

variable {now : Int} {ch back : Change} {r : Region} {s s' u : Store}

/-- **A change sees its region only.** On a store that is the same inside of the region it does the same. -/
theorem apply_same (hs : r.Same s u) (hin : ch.In r) (hf : ch.Finds u) (h : ch.apply now s = .ok (s', back)) :
    ∃ u' back', ch.apply now u = .ok (u', back') ∧ r.Same s' u' := by
  cases r with
  | body card =>
    cases ch with
    | insertBlock b =>
      obtain ⟨-, hc, rfl, -⟩ := apply_insertBlock.1 h
      obtain rfl : b.parentId = card := hin
      obtain ⟨c, hc⟩ := Option.isSome_iff_exists.1 hc
      obtain ⟨c', hc', -⟩ := hs.card? hc
      exact ⟨_, _, apply_insertBlock.2 ⟨hf, Option.isSome_of_eq_some hc', rfl, rfl⟩, hs.putBlock b⟩
    | updateBlock new old =>
      obtain ⟨x, -, rfl, -⟩ := apply_updateBlock.1 h
      obtain ⟨y, hy⟩ := Option.isSome_iff_exists.1 hf
      exact ⟨_, _, apply_updateBlock.2 ⟨y, hy, rfl, rfl⟩, hs.putBlock _⟩
    | deleteBlock b =>
      obtain ⟨x, -, rfl, -⟩ := apply_deleteBlock.1 h
      obtain ⟨y, hy⟩ := Option.isSome_iff_exists.1 hf
      exact ⟨_, _, apply_deleteBlock.2 ⟨y, hy, rfl, rfl⟩, hs.dropBlock _⟩
    | changeOrder card' old new =>
      obtain rfl : card' = card := hin
      obtain ⟨c, hc, rfl, hcons, rfl, -⟩ := apply_changeOrder.1 h
      obtain ⟨c', hc', -, -, horder⟩ := hs.card? hc
      exact ⟨_, _, apply_changeOrder.2 ⟨c', hc', horder, hs.consistent hcons, rfl, rfl⟩, hs.putOrder hc hc' new⟩
    | updateCard new old => exact hin.elim
    | setProperty card' templateId old new => exact hin.elim
  | property card templateId =>
    cases ch with
    | setProperty card' templateId' old new =>
      obtain ⟨rfl, rfl⟩ := hin
      obtain ⟨c, hc, rfl, -⟩ := apply_setProperty.1 h
      obtain ⟨c', hc', -⟩ := hs.property_card? hc
      exact ⟨_, _, apply_setProperty.2 ⟨c', hc', rfl, rfl⟩, Region.Same.putProperty hc hc' new⟩
    | _ => exact hin.elim

/-- the change is not the replacement of a block, which leaves the time on it -/
def Unstamping : Change → Prop
  | updateBlock _ _ => False
  | _ => True

/-- a change taken back -/
theorem eq_of_apply_back {later : Int} {forth : Change} {t : Store} (hu : ch.Unstamping)
    (h : ch.apply now s = .ok (t, back)) (hb : back.apply later t = .ok (s', forth)) : s' = s := by
  cases ch with
  | insertBlock b =>
    obtain ⟨hn, -, rfl, rfl⟩ := apply_insertBlock.1 h
    obtain ⟨x, -, rfl, -⟩ := apply_deleteBlock.1 hb
    exact Store.dropBlock_putBlock hn
  | updateBlock new old => exact hu.elim
  | deleteBlock b =>
    obtain ⟨x, hx, rfl, rfl⟩ := apply_deleteBlock.1 h
    obtain ⟨-, -, rfl, -⟩ := apply_insertBlock.1 hb
    have hid := id_of_block? hx
    rw [← hid] at hx ⊢
    exact Store.putBlock_dropBlock hx
  | changeOrder card old new =>
    obtain ⟨c, hc, rfl, -, rfl, rfl⟩ := apply_changeOrder.1 h
    obtain ⟨c', hc', -, -, rfl, -⟩ := apply_changeOrder.1 hb
    obtain rfl := id_of_card? hc
    rw [card?_putCard, if_pos rfl] at hc'
    cases hc'
    exact Store.putCard_putCard hc rfl
  | updateCard new old =>
    obtain ⟨c, hc, rfl, rfl⟩ := apply_updateCard.1 h
    have hid := id_of_card? hc
    rw [← hid] at hc
    obtain ⟨c', hc', rfl, -⟩ := apply_updateCard.1 hb
    rw [card?_putCard, if_pos rfl] at hc'
    cases hc'
    exact Store.putCard_putCard hc rfl
  | setProperty card templateId old new =>
    obtain ⟨c, hc, rfl, rfl⟩ := apply_setProperty.1 h
    obtain ⟨c', hc', rfl, -⟩ := apply_setProperty.1 hb
    obtain rfl := id_of_card? hc
    rw [card?_putCard, if_pos rfl] at hc'
    cases hc'
    simp only [Card.property?, Table.alter_alter_get?]
    exact Store.putCard_putCard hc rfl

end Change

/-! ## Groups -/

/-- every change of a group finds, where it comes, what it must find among the blocks -/
def Found (now : Int) (s : Store) : List Mutation → Prop
  | [] => True
  | m :: ms => m.change.Finds s ∧ ∀ u back, m.apply now s = .ok (u, back) → Found now u ms

section Groups

variable {now later : Int} {r : Region} {s s' t u : Store} {ms inverses forth : List Mutation}

/-- **A group sees its region only.** -/
theorem applyGroup_same (hs : r.Same s u) (hin : ∀ m ∈ ms, m.change.In r) (hf : Found now u ms)
    (h : applyGroup now s ms = .ok (t, inverses)) :
    ∃ t' inverses', applyGroup now u ms = .ok (t', inverses') ∧ r.Same t t' := by
  induction ms generalizing s u inverses with
  | nil =>
    cases h
    exact ⟨u, [], rfl, hs⟩
  | cons m ms ih =>
    obtain ⟨hfirst, hrest⟩ := hf
    obtain ⟨v, back, rest, hm, hg, -⟩ := applyGroup_cons_eq_ok_iff.1 h
    obtain ⟨v', back', happ, hv⟩ :=
      Change.apply_same hs (hin m List.mem_cons_self) hfirst (Mutation.apply_eq_ok_iff.1 hm).1
    have hm' : m.apply now u = .ok (v', ⟨back', m.description⟩) := Mutation.apply_eq_ok_iff.2 ⟨happ, rfl⟩
    obtain ⟨t', rest', hg', ht⟩ := ih hv (fun m' hm' => hin m' (List.mem_cons_of_mem _ hm')) (hrest _ _ hm') hg
    exact ⟨t', _, applyGroup_cons_eq_ok_iff.2 ⟨v', _, rest', hm', hg', rfl⟩, ht⟩

/-- **A group taken back leaves nothing**, if it replaces no block. -/
theorem eq_of_taken_back (hu : ∀ m ∈ ms, m.change.Unstamping) (h : applyGroup now s ms = .ok (t, inverses))
    (hb : applyGroup later t inverses = .ok (s', forth)) : s' = s := by
  -- the inverse of the first mutation comes last, so the induction leaves it to be taken back by itself
  induction ms generalizing s s' inverses forth with
  | nil =>
    cases h; cases hb
    rfl
  | cons m ms ih =>
    obtain ⟨v, back, rest, hm, hg, rfl⟩ := applyGroup_cons_eq_ok_iff.1 h
    obtain ⟨v', first, second, hrest, hback, -⟩ := applyGroup_append_eq_ok_iff.1 hb
    obtain rfl : v' = v := ih (fun m' hm' => hu m' (List.mem_cons_of_mem _ hm')) hg hrest
    obtain ⟨back', hb', -⟩ := applyGroup_singleton_eq_ok_iff.1 hback
    exact Change.eq_of_apply_back (hu m List.mem_cons_self) (Mutation.apply_eq_ok_iff.1 hm).1
      (Mutation.apply_eq_ok_iff.1 hb').1

/-- The replacement of a block taken back leaves the time of that moment on it, and nothing else. -/
theorem putBlock_of_taken_back {new old : Block} {description : String}
    (h : applyGroup now s [⟨.updateBlock new old, description⟩] = .ok (t, inverses))
    (hb : applyGroup later t inverses = .ok (s', forth)) :
    ∃ x, s.block? new.id = some x ∧ s' = s.putBlock { x with updatedAt := later } := by
  obtain ⟨back, hm, rfl⟩ := applyGroup_singleton_eq_ok_iff.1 h
  obtain ⟨x, hx, rfl, hback⟩ := Change.apply_updateBlock.1 (Mutation.apply_eq_ok_iff.1 hm).1
  obtain ⟨forth', hm', -⟩ := applyGroup_singleton_eq_ok_iff.1 hb
  have hchange := (Mutation.apply_eq_ok_iff.1 hm').1
  rw [hback] at hchange
  obtain ⟨y, -, rfl, -⟩ := Change.apply_updateBlock.1 hchange
  exact ⟨x, hx, Store.putBlock_overwrite (id_of_block? hx).symm⟩

end Groups

end Corkboard
