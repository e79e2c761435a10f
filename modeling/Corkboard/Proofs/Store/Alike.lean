/-
Stores that differ in nothing but the times of last changes.

Every change of a block stamps it with the time, and so does taking a change back, so a history can restore a store only
up to these times. `Alike` is that equality. It is respected by every write and by the consistency of orders.
-/
import Corkboard.Proofs.Store.Writes

namespace Corkboard

/-- the same store but for the times of last changes -/
structure Store.Alike (s t : Store) : Prop where
  cards : ∀ id, s.card? id = t.card? id
  blocks : ∀ id, (s.block? id).map Block.unstamped = (t.block? id).map Block.unstamped

namespace Block

variable {b b' : Block}

theorem id_eq_of_unstamped (h : b.unstamped = b'.unstamped) : b.id = b'.id :=
  show b.unstamped.id = b'.unstamped.id from congrArg Block.id h

theorem parentId_eq_of_unstamped (h : b.unstamped = b'.unstamped) : b.parentId = b'.parentId :=
  show b.unstamped.parentId = b'.unstamped.parentId from congrArg Block.parentId h

theorem rootId_eq_of_unstamped (h : b.unstamped = b'.unstamped) : b.rootId = b'.rootId :=
  show b.unstamped.rootId = b'.unstamped.rootId from congrArg Block.rootId h

end Block

namespace Store.Alike

variable {s t u : Store}

theorem refl (s : Store) : s.Alike s := ⟨fun _ => rfl, fun _ => rfl⟩

theorem of_eq (h : s = t) : s.Alike t := h ▸ .refl s

theorem symm (h : s.Alike t) : t.Alike s := ⟨fun id => (h.cards id).symm, fun id => (h.blocks id).symm⟩

theorem trans (h : s.Alike t) (h' : t.Alike u) : s.Alike u :=
  ⟨fun id => (h.cards id).trans (h'.cards id), fun id => (h.blocks id).trans (h'.blocks id)⟩

/-! ## What alike stores hold -/

theorem block?_eq_none (h : s.Alike t) {id : Uuid} (hn : t.block? id = none) : s.block? id = none := by
  simpa [hn] using h.blocks id

theorem exists_block? (h : s.Alike t) {id : Uuid} {b : Block} (hb : t.block? id = some b) :
    ∃ b', s.block? id = some b' ∧ b'.unstamped = b.unstamped := by
  simpa [hb] using h.blocks id

theorem isSome_block? (h : s.Alike t) (id : Uuid) : (s.block? id).isSome = (t.block? id).isSome := by
  simpa using congrArg Option.isSome (h.blocks id)

theorem consistent (h : s.Alike t) {card : Uuid} {order : List Uuid} (hc : t.Consistent card order) :
    s.Consistent card order := by
  refine ⟨hc.nodup, fun id hid => ?_⟩
  obtain ⟨b, hb, hparent⟩ := hc.owned id hid
  obtain ⟨b', hb', he⟩ := h.exists_block? hb
  exact ⟨b', hb', (Block.parentId_eq_of_unstamped he).trans hparent⟩

/-! ## Writes -/

theorem putCard (h : s.Alike t) (c : Card) : (s.putCard c).Alike (t.putCard c) where
  cards id := by simp only [card?_putCard, h.cards]
  blocks id := by simp only [block?_putCard, h.blocks]

theorem putBlock (h : s.Alike t) {b b' : Block} (hb : b.unstamped = b'.unstamped) :
    (s.putBlock b).Alike (t.putBlock b') where
  cards id := by simp only [card?_putBlock, h.cards]
  blocks id := by
    rw [block?_putBlock, block?_putBlock, Block.id_eq_of_unstamped hb]
    split
    · simp [hb]
    · exact h.blocks id

theorem dropBlock (h : s.Alike t) (b : Uuid) : (s.dropBlock b).Alike (t.dropBlock b) where
  cards id := by simp only [card?_dropBlock, h.cards]
  blocks id := by
    rw [block?_dropBlock, block?_dropBlock]
    split
    · rfl
    · exact h.blocks id

end Store.Alike

end Corkboard
