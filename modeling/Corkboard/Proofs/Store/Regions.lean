/-
The parts of a store that writes keep to.

A region is the body of a card, which is its order and its blocks, or one property of a card. Blocks of all cards lie in
one map, so that a write keeps to a region is a fact about the stored blocks, not about its key.

- `Region.Frames`: outside of a region two stores are the same.
- `Region.Same`: inside a region two stores are the same.
- `Frames.same`: regions that differ do not meet. `eq_of_same_all`: outside of all regions lie only the boards and
  titles of the cards, so that stores which are the same in every region are equal.
-/
import Corkboard.Proofs.Store.Writes

namespace Corkboard

/-- a part of a store -/
inductive Region where
  /-- the order of a card and its blocks -/
  | body (card : Uuid)
  /-- one property of a card -/
  | property (card : Uuid) (templateId : String)
  deriving DecidableEq

namespace Region

/-- a card with the region left blank -/
def blank (r : Region) (c : Card) : Card :=
  match r with
  | body card => if c.id = card then { c with contentOrder := [] } else c
  | property card templateId => if c.id = card then { c with properties := c.properties.erase templateId } else c

/-- the block lies outside of the region -/
def Spares (r : Region) (b : Block) : Prop :=
  match r with
  | body card => b.parentId ≠ card
  | property _ _ => True

instance (r : Region) (b : Block) : Decidable (r.Spares b) :=
  match r with
  | body card => inferInstanceAs (Decidable (b.parentId ≠ card))
  | property _ _ => .isTrue trivial

/-- outside of the region the second store is like the first: with the region left blank all cards are the same, and so
are all blocks outside of it -/
structure Frames (r : Region) (s t : Store) : Prop where
  cards : ∀ id, (t.card? id).map r.blank = (s.card? id).map r.blank
  blocks : ∀ id, (t.block? id).filter r.Spares = (s.block? id).filter r.Spares

/-- inside of the region the stores are the same; a body knows the board of its card -/
def Same (s t : Store) : Region → Prop
  | body card =>
    (s.card? card).map (fun c => (c.rootId, c.contentOrder)) =
      (t.card? card).map (fun c => (c.rootId, c.contentOrder)) ∧
    ∀ id b, b.parentId = card → (s.block? id = some b ↔ t.block? id = some b)
  | property card templateId =>
    (s.card? card).map (·.property? templateId) = (t.card? card).map (·.property? templateId)

variable {r q : Region} {s t u : Store} {b : Block}

/-! ## Frames -/

theorem Frames.refl (r : Region) (s : Store) : r.Frames s s := ⟨fun _ => rfl, fun _ => rfl⟩

theorem Frames.trans (h : r.Frames s t) (h' : r.Frames t u) : r.Frames s u :=
  ⟨fun id => (h'.cards id).trans (h.cards id), fun id => (h'.blocks id).trans (h.blocks id)⟩

theorem frames_putCard {c c₀ : Card} (hc : s.card? c.id = some c₀) (hb : r.blank c = r.blank c₀) :
    r.Frames s (s.putCard c) where
  cards id := by
    rw [Store.card?_putCard]
    split
    · rename_i hid
      rw [hid, hc, Option.map_some, Option.map_some, hb]
    · rfl
  blocks _ := rfl

theorem frames_putBlock (hb : ¬ r.Spares b) (hx : ∀ x, s.block? b.id = some x → ¬ r.Spares x) :
    r.Frames s (s.putBlock b) where
  cards _ := rfl
  blocks id := by
    rw [Store.block?_putBlock]
    split
    · rename_i hid
      rw [hid, Option.filter_eq_none_iff.2 (by simpa using hb), Option.filter_eq_none_iff.2 (by simpa using hx)]
    · rfl

theorem frames_dropBlock {id : Uuid} (hx : ∀ x, s.block? id = some x → ¬ r.Spares x) : r.Frames s (s.dropBlock id) where
  cards _ := rfl
  blocks id' := by
    rw [Store.block?_dropBlock]
    split
    · rename_i hid
      have hnone : (s.block? id).filter r.Spares = none := Option.filter_eq_none_iff.2 (by simpa using hx)
      rw [hid, hnone, Option.filter_none]
    · rfl

theorem not_spares_body {card : Uuid} : ¬ (body card).Spares b ↔ b.parentId = card := Decidable.not_not

theorem blank_body_order (c : Card) (order : List Uuid) :
    (body c.id).blank { c with contentOrder := order } = (body c.id).blank c := by
  simp only [blank, if_true]

theorem blank_property_alter (c : Card) (templateId : String) (v : Option Json) :
    (property c.id templateId).blank { c with properties := c.properties.alter templateId v } =
      (property c.id templateId).blank c := by
  have herased : (c.properties.alter templateId v).erase templateId = c.properties.erase templateId :=
    Table.ext_get? fun k => by
      rw [Table.get?_erase, Table.get?_erase, Table.get?_alter]
      split <;> rfl
  simp only [blank, if_true, herased]

/-! ## Regions do not meet -/

/-- the same cards on the same boards, under the same titles -/
def SameTitles (s t : Store) : Prop :=
  ∀ id, (s.card? id).map (fun c => (c.rootId, c.title)) = (t.card? id).map (fun c => (c.rootId, c.title))

/-- what does not see the region of a card is the same on both sides of a frame -/
theorem Frames.map_card? {α : Type} (h : r.Frames s t) {id : Uuid} (f : Card → α)
    (hf : ∀ c, c.id = id → f (r.blank c) = f c) : (s.card? id).map f = (t.card? id).map f := by
  have hblank : ∀ u : Store, (u.card? id).map f = ((u.card? id).map r.blank).map f := by
    intro u
    cases hc : u.card? id with
    | none => rfl
    | some c => simp only [Option.map_some, hf c (Store.id_of_card? hc)]
  rw [hblank s, hblank t, h.cards id]

theorem Frames.block?_iff (h : r.Frames s t) {id : Uuid} (hb : r.Spares b) :
    s.block? id = some b ↔ t.block? id = some b := by
  have hsome : ∀ u : Store, (u.block? id).filter r.Spares = some b ↔ u.block? id = some b := fun u => by
    simp [Option.filter_eq_some_iff, hb]
  rw [← hsome s, ← hsome t, h.blocks id]

theorem Frames.sameTitles (h : r.Frames s t) : SameTitles s t := by
  intro id
  refine h.map_card? _ fun c _ => ?_
  cases r with
  | body card => simp only [blank]; split <;> rfl
  | property card templateId => simp only [blank]; split <;> rfl

/-- a region outside of another -/
theorem Frames.same (h : r.Frames s t) (hq : q ≠ r) : q.Same s t := by
  cases q with
  | body card =>
    refine ⟨h.map_card? _ fun c hc => ?_, fun id b hb => h.block?_iff ?_⟩
    · cases r with
      | body card' =>
        have hne : card ≠ card' := fun he => hq (he ▸ rfl)
        simp only [blank, hc, hne, if_false]
      | property card' templateId => simp only [blank]; split <;> rfl
    · cases r with
      | body card' => exact fun he => hq (by rw [← hb, he])
      | property card' templateId => trivial
  | property card templateId =>
    refine h.map_card? _ fun c hc => ?_
    cases r with
    | body card' => simp only [blank]; split <;> rfl
    | property card' templateId' =>
      by_cases hcard : card = card'
      · have hne : templateId ≠ templateId' := fun he => hq (by rw [hcard, he])
        simp only [blank, hc, hcard, if_true, Card.property?, Table.get?_erase, hne, if_false]
      · simp only [blank, hc, hcard, if_false]

theorem card_eq_of_parts {c c' : Card} (hid : c.id = c'.id) (hname : (c.rootId, c.title) = (c'.rootId, c'.title))
    (horder : c.contentOrder = c'.contentOrder) (hprops : ∀ k, c.property? k = c'.property? k) : c = c' := by
  have htable : c.properties = c'.properties := Table.ext_get? hprops
  cases c; cases c'
  simp_all

/-- stores that are the same in every region, with the same titles, are equal -/
theorem eq_of_same_all (htitles : SameTitles s t) (h : ∀ q : Region, q.Same s t) : s = t := by
  refine Store.ext_lookups (fun id => ?_) (fun id => ?_)
  · have hname := htitles id
    have horder := (h (body id)).1
    have hprop := fun k => h (property id k)
    cases hs : s.card? id with
    | none =>
      rw [hs] at hname
      exact (Option.map_eq_none_iff.1 hname.symm).symm
    | some c =>
      rw [hs] at hname
      obtain ⟨c', ht, hname⟩ := Option.map_eq_some_iff.1 hname.symm
      simp only [hs, ht, Same, Option.map_some, Option.some.injEq, Prod.mk.injEq] at horder hprop
      rw [ht, card_eq_of_parts ((Store.id_of_card? hs).trans (Store.id_of_card? ht).symm) hname.symm horder.2 hprop]
  · refine Option.ext fun b => ?_
    exact (h (body b.parentId)).2 id b rfl

end Region

end Corkboard
