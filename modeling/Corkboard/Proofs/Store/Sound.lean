/-
Stores whose orders and blocks fit together.

The order of a card and the parents of blocks say the same thing twice. A store is sound when they agree: an order
lists, once each, exactly the blocks that name its card, and the card that a block names is there, on the same board.
The check that a swap of an order makes looks at one direction on one card; each write below keeps the whole.
-/
import Corkboard.Proofs.Store.Alike

namespace Corkboard

/-- orders list exactly the blocks of their cards, and blocks stand on cards of their boards -/
structure Store.Sound (s : Store) : Prop where
  nodup : ∀ {id : Uuid} {c : Card}, s.card? id = some c → c.contentOrder.Nodup
  listed : ∀ {id : Uuid} {c : Card}, s.card? id = some c →
    ∀ b, b ∈ c.contentOrder ↔ ∃ x, s.block? b = some x ∧ x.parentId = id
  housed : ∀ {id : Uuid} {b : Block}, s.block? id = some b → ∃ c, s.card? b.parentId = some c ∧ c.rootId = b.rootId

namespace Store

variable {s t : Store}

theorem sound_empty : empty.Sound := ⟨by simp, by simp, by simp⟩

namespace Sound

theorem consistent (h : s.Sound) {id : Uuid} {c : Card} (hc : s.card? id = some c) : s.Consistent id c.contentOrder :=
  ⟨h.nodup hc, fun b hb => (h.listed hc b).1 hb⟩

theorem isSome_parent (h : s.Sound) {id : Uuid} {b : Block} (hb : s.block? id = some b) :
    (s.card? b.parentId).isSome := by
  obtain ⟨c, hc, -⟩ := h.housed hb
  simp [hc]

/-- soundness does not see the times of last changes -/
theorem of_alike (h : t.Sound) (ha : s.Alike t) : s.Sound where
  nodup hc := h.nodup (ha.cards _ ▸ hc)
  listed hc b := by
    rw [h.listed (ha.cards _ ▸ hc)]
    constructor
    · intro h
      obtain ⟨x, hx, hp⟩ := h
      obtain ⟨x', hx', he⟩ := ha.exists_block? hx
      exact ⟨x', hx', (Block.parentId_eq_of_unstamped he).trans hp⟩
    · intro h
      obtain ⟨x, hx, hp⟩ := h
      obtain ⟨x', hx', he⟩ := ha.symm.exists_block? hx
      exact ⟨x', hx', (Block.parentId_eq_of_unstamped he).trans hp⟩
  housed hb := by
    obtain ⟨b', hb', he⟩ := ha.symm.exists_block? hb
    obtain ⟨c, hc, hr⟩ := h.housed hb'
    rw [Block.parentId_eq_of_unstamped he, ← ha.cards] at hc
    exact ⟨c, hc, hr.trans (Block.rootId_eq_of_unstamped he)⟩

/-! ## Writes of cards -/

theorem putCard_new (h : s.Sound) {c : Card} (hn : s.card? c.id = none) (ho : c.contentOrder = []) :
    (s.putCard c).Sound where
  nodup hc := by
    rw [card?_putCard] at hc
    split at hc
    · cases hc; simp [ho]
    · exact h.nodup hc
  listed {id c'} hc b := by
    rw [card?_putCard] at hc
    split at hc
    · rename_i hid
      cases hc
      -- no block names a card that is not there
      simp only [ho, List.not_mem_nil, block?_putCard, false_iff, not_exists, not_and]
      intro x hx hp
      obtain ⟨c₀, hc₀, -⟩ := h.housed hx
      rw [hp, hid, hn] at hc₀; cases hc₀
    · exact h.listed hc b
  housed hb := by
    obtain ⟨c₀, hc₀, hr⟩ := h.housed hb
    refine ⟨c₀, ?_, hr⟩
    rw [card?_putCard, if_neg, hc₀]
    rintro he
    rw [he, hn] at hc₀; cases hc₀

/-- a card replaced by one whose order lists the same blocks -/
theorem putCard_same (h : s.Sound) {c c₀ : Card} (hc₀ : s.card? c.id = some c₀) (hr : c.rootId = c₀.rootId)
    (hn : c.contentOrder.Nodup) (hm : ∀ b, b ∈ c.contentOrder ↔ b ∈ c₀.contentOrder) : (s.putCard c).Sound where
  nodup hc := by
    rw [card?_putCard] at hc
    split at hc
    · cases hc; exact hn
    · exact h.nodup hc
  listed hc b := by
    rw [card?_putCard] at hc
    split at hc
    · rename_i hid
      cases hc
      rw [hm, h.listed hc₀, hid]
      rfl
    · exact h.listed hc b
  housed hb := by
    obtain ⟨c₁, hc₁, hr₁⟩ := h.housed hb
    rw [card?_putCard]
    split
    · rename_i hid
      rw [hid, hc₀] at hc₁; cases hc₁
      exact ⟨c, rfl, hr.trans hr₁⟩
    · exact ⟨c₁, hc₁, hr₁⟩

/-! ## Writes of blocks -/

/-- a block replaced by one on the same card and board -/
theorem putBlock_same (h : s.Sound) {b b₀ : Block} (hb₀ : s.block? b.id = some b₀) (hp : b.parentId = b₀.parentId)
    (hr : b.rootId = b₀.rootId) : (s.putBlock b).Sound where
  nodup hc := h.nodup hc
  listed hc x := by
    rw [h.listed hc, block?_putBlock]
    split
    · rename_i hid
      simp [hid, hb₀, hp]
    · rfl
  housed hb := by
    rw [block?_putBlock] at hb
    split at hb
    · cases hb
      rw [hp, hr]
      exact h.housed hb₀
    · exact h.housed hb

theorem insert (h : s.Sound) {b : Block} {c c₀ : Card} (hn : s.block? b.id = none) (hc₀ : s.card? c.id = some c₀)
    (hp : b.parentId = c.id) (hb : b.rootId = c₀.rootId) (hr : c.rootId = c₀.rootId) (hnodup : c.contentOrder.Nodup)
    (hm : ∀ x, x ∈ c.contentOrder ↔ x = b.id ∨ x ∈ c₀.contentOrder) : ((s.putBlock b).putCard c).Sound where
  nodup hc := by
    rw [card?_putCard] at hc
    split at hc
    · cases hc; exact hnodup
    · exact h.nodup hc
  listed {id c'} hc x := by
    rw [card?_putCard] at hc
    rw [block?_putCard, block?_putBlock]
    split at hc
    · rename_i hid
      cases hc
      rw [hm, h.listed hc₀, hid]
      split <;> simp_all
    · rename_i hid
      rw [h.listed hc]
      split
      · rename_i hx
        rw [hx]
        simp [hn, hp, Ne.symm hid]
      · rfl
  housed hx := by
    rw [block?_putCard, block?_putBlock] at hx
    simp only [card?_putCard, card?_putBlock]
    split at hx
    · cases hx
      exact ⟨c, if_pos hp, hr.trans hb.symm⟩
    · obtain ⟨c₁, hc₁, hr₁⟩ := h.housed hx
      split
      · rename_i hid
        rw [hid, hc₀] at hc₁; cases hc₁
        exact ⟨c, rfl, hr.trans hr₁⟩
      · exact ⟨c₁, hc₁, hr₁⟩

theorem remove (h : s.Sound) {b : Block} {c c₀ : Card} (hb : s.block? b.id = some b) (hc₀ : s.card? c.id = some c₀)
    (hp : b.parentId = c.id) (hr : c.rootId = c₀.rootId) (hnodup : c.contentOrder.Nodup)
    (hm : ∀ x, x ∈ c.contentOrder ↔ x ≠ b.id ∧ x ∈ c₀.contentOrder) : ((s.putCard c).dropBlock b.id).Sound where
  nodup hc := by
    rw [card?_dropBlock, card?_putCard] at hc
    split at hc
    · cases hc; exact hnodup
    · exact h.nodup hc
  listed {id c'} hc x := by
    rw [card?_dropBlock, card?_putCard] at hc
    rw [block?_dropBlock, block?_putCard]
    split at hc
    · rename_i hid
      cases hc
      rw [hm, h.listed hc₀, hid]
      split <;> simp_all
    · rename_i hid
      rw [h.listed hc]
      split
      · rename_i hx
        rw [hx]
        simp [hb, hp, Ne.symm hid]
      · rfl
  housed {id x} hx := by
    rw [block?_dropBlock, block?_putCard] at hx
    simp only [card?_dropBlock, card?_putCard]
    split at hx
    · cases hx
    · obtain ⟨c₁, hc₁, hr₁⟩ := h.housed hx
      split
      · rename_i hid
        rw [hid, hc₀] at hc₁; cases hc₁
        exact ⟨c, rfl, hr.trans hr₁⟩
      · exact ⟨c₁, hc₁, hr₁⟩

end Sound

end Store

end Corkboard
