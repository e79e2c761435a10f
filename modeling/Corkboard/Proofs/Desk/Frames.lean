/-
What a call on a card leaves alone.

Blocks are found by their identifiers alone and written as a whole, and a step may write what an earlier one has read.
That a call keeps to the body of its card is a fact about what it carries: blocks of its card (`Phase.Of`), stored under
their identifiers, if at all, as blocks of the same card (`Phase.Settled`). `Task.Acts.frames` is one step.
-/
import Corkboard.Proofs.Desk.Alone
import Corkboard.Proofs.Desk.Lineage
import Corkboard.Proofs.Store.Regions

namespace Corkboard

/-! ## What a call carries -/

def OrderEdit.Of (card : Uuid) : OrderEdit → Prop
  | insert b _ | remove b => b.parentId = card
  | move _ _ => True

namespace Phase

/-- what a call carries is of its card -/
def Of (card : Uuid) : Phase → Prop
  | making _ _ _ c => c.id = card
  | replacing new _ => new.parentId = card
  | waiting edit _ | reading edit _ _ => edit.Of card
  | writing edit _ _ read => edit.Of card ∧ read.id = card
  | _ => True

/-- the block that a call is about to replace or to take out -/
def target? : Phase → Option Block
  | replacing new _ => some new
  | waiting (.remove b) _ | reading (.remove b) _ _ | writing (.remove b) _ _ _ => some b
  | _ => none

/-- what is stored under the identifier of that block is on the same card -/
def Settled (s : Store) (p : Phase) : Prop := ∀ b ∈ p.target?, ∀ x, s.block? b.id = some x → x.parentId = b.parentId

/-- the call carries nothing of the store that it could write back -/
def Bare : Phase → Prop
  | opening _ _ _ | drafting _ _ _ _ | seeking _ | fetching _ _ _ | waiting (.move _ _) _ | noting _ _ | done _ => True
  | _ => False

variable {h h' : History} {w : Ambient} {card : Uuid} {p p' : Phase} {s : Store}

theorem Bare.of (hp : p.Bare) : p.Of card := by
  cases p with
  | waiting edit sequel => cases edit <;> trivial
  | making | replacing | reading | writing => exact hp.elim
  | _ => trivial

theorem Bare.settled (hp : p.Bare) : p.Settled s := by
  intro b hb
  cases p with
  | waiting edit sequel => cases edit <;> first | exact hp.elim | cases hb
  | making | replacing | reading | writing => exact hp.elim
  | _ => cases hb

theorem bare_composing (saved : List Block) (index : Nat) (drafts : List Committed) :
    (composing saved index drafts).Bare := by
  cases drafts <;> trivial

theorem bare_start (r : ContentRegistry) (k : Call) : (start r k).Bare := by
  cases k with
  | add tag index =>
    simp only [start]
    cases r.get? tag <;> trivial
  | save draft index =>
    obtain ⟨_ | id, tag, value⟩ := draft <;> trivial
  | compose lines index => exact bare_composing _ _ _
  | updateValue id value => trivial
  | delete id => trivial
  | move id index => trivial

theorem bare_afterBlock (b : Block) (sequel : Sequel) : (afterBlock b sequel).Bare := by
  cases sequel with
  | answer => trivial
  | compose saved drafts index => exact bare_composing _ _ _

theorem bare_afterEdit (edit : OrderEdit) (sequel : Sequel) (order : List Uuid) :
    (Task.afterEdit edit sequel order).Bare := by
  cases edit <;> trivial

theorem Of.next (ho : p.Of card) (hn : Next h w card p p') : p'.Of card := by
  cases hn with
  | opened hc => exact Store.id_of_card? hc
  | made _ => exact ho
  | drafted hc => exact Store.id_of_card? hc
  | sought _ hp => exact hp
  | fetched _ hp => exact hp
  | locked => exact ho
  | held => exact ho
  | read hc _ => exact ⟨ho, Store.id_of_card? hc⟩
  | again _ _ _ _ => exact ho.1
  | noted => exact (bare_afterBlock _ _).of
  | ended => trivial
  | failed _ => trivial

/-- what a call reads is settled at that moment -/
theorem Settled.next (hs : p.Settled h.store) (hn : Next h w card p p') : p'.Settled h.store := by
  have hread : ∀ {id : Uuid} {b : Block}, h.store.block? id = some b → ∀ x, h.store.block? b.id = some x →
      x.parentId = b.parentId := by
    intro id b hb x hx
    rw [Store.id_of_block? hb, hb] at hx
    cases hx
    rfl
  cases hn with
  | sought hb _ =>
    rintro _ ⟨⟩
    exact hread hb
  | @fetched _ _ _ b hb _ =>
    rintro _ ⟨⟩
    exact hread (b := b) hb
  | @locked edit sequel => cases edit <;> exact hs
  | held => exact hs
  | @read edit => cases edit <;> exact hs
  | @again edit => cases edit <;> exact hs
  | made _ => rintro b ⟨⟩
  | drafted _ => rintro b ⟨⟩
  | opened _ => rintro b ⟨⟩
  | noted => exact (bare_afterBlock _ _).settled
  | ended => exact hs
  | failed _ => rintro b ⟨⟩

theorem Of.acts (ho : p.Of card) (ha : Task.Acts w card h p h' p') : p'.Of card := by
  cases ha with
  | quiet hn => exact ho.next hn
  | replaced _ => trivial
  | edited _ _ => exact (bare_afterEdit _ _ _).of

theorem Settled.acts (hs : p.Settled h.store) (ha : Task.Acts w card h p h' p') : p'.Settled h'.store := by
  cases ha with
  | quiet hn => exact hs.next hn
  | replaced _ => rintro b ⟨⟩
  | edited _ _ => exact (bare_afterEdit _ _ _).settled

/-- a lineage settles all that it agrees with -/
theorem settled_of_backs {L : Lineage} (hb : L.Backs card p) (hs : L.Holds s) : p.Settled s := by
  intro b hb' x hx
  suffices hk : L.Knows b from ((hs.same_place hk hx).1).symm
  cases p with
  | replacing new old =>
    cases hb'
    exact hb
  | waiting edit sequel =>
    cases edit <;> cases hb'
    exact hb.1
  | reading edit sequel attempt =>
    cases edit <;> cases hb'
    exact hb.1
  | writing edit sequel attempt read =>
    cases edit <;> cases hb'
    exact hb.1.1
  | _ => cases hb'

end Phase

/-! ## One step of a call -/

theorem OrderEdit.frames_result {e : OrderEdit} {s : Store} {c : Card} (order : List Uuid) (hc : s.card? c.id = some c)
    (he : e.Of c.id) (hfits : e.Fits s)
    (hx : ∀ b, e = .remove b → ∀ x, s.block? b.id = some x → x.parentId = b.parentId) :
    (Region.body c.id).Frames s (e.result s c order) := by
  have hput :
      ∀ u : Store, u.card? c.id = some c → (Region.body c.id).Frames u (u.putCard { c with contentOrder := order }) :=
    fun u hu => Region.frames_putCard hu (Region.blank_body_order c order)
  cases e with
  | insert b index =>
    have hb : (Region.body c.id).Frames s (s.putBlock b) :=
      Region.frames_putBlock (Region.not_spares_body.2 he) fun x hx => by rw [hfits.1] at hx; cases hx
    exact hb.trans (hput _ hc)
  | remove b =>
    refine (hput s hc).trans (Region.frames_dropBlock fun x hb => ?_)
    exact Region.not_spares_body.2 ((hx b rfl x hb).trans he)
  | move id index => exact hput s hc

/-- **One step of a call** keeps to the body of its card. -/
theorem Task.Acts.frames {w : Ambient} {card : Uuid} {h h' : History} {p p' : Phase} (ha : Task.Acts w card h p h' p')
    (ho : p.Of card) (hs : p.Settled h.store) : (Region.body card).Frames h.store h'.store := by
  cases ha with
  | quiet _ => exact .refl _ _
  | @replaced new old _ hc =>
    rw [History.store_of_commit_updateBlock hc]
    refine Region.frames_putBlock (Region.not_spares_body.2 ho) fun x hx => ?_
    exact Region.not_spares_body.2 ((hs new rfl x hx).trans ho)
  | @edited edit sequel attempt read group order _ hg hc =>
    obtain ⟨hedit, rfl⟩ := ho
    obtain ⟨c, hcard, -, hfits, hstore⟩ := (OrderEdit.written_of_commit hg hc).effect
    have hid := Store.id_of_card? hcard
    rw [← hid] at hcard hedit ⊢
    rw [hstore]
    refine OrderEdit.frames_result order hcard hedit hfits ?_
    rintro b rfl
    exact hs b rfl

end Corkboard
