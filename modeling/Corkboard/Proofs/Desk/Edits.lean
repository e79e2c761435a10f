/-
Edits of an order as a history takes them.

The group of an edit is built from a card as it was read. When it is accepted, the order that was read is the order of
the card at that moment, so the edit is made on the present order (`Written`); and on a sound store the group leaves a
sound store and can be taken back.
-/
import Corkboard.Desk.OrderEdit
import Corkboard.Proofs.History.Steps
import Corkboard.Proofs.Store.Sound

namespace Corkboard

/-! ## Orders -/

/-- an index beyond the end means the end -/
theorem insertAt_eq_insertIdx (order : List Uuid) (index : Nat) (id : Uuid) :
    insertAt order index id = order.insertIdx (min index order.length) id := by
  induction order generalizing index with
  | nil => simp [insertAt]
  | cons x order ih =>
    cases index with
    | zero => simp [insertAt]
    | succ index =>
      have := ih index
      simp only [insertAt] at this
      simp [insertAt, this, Nat.add_min_add_right]

@[simp] theorem mem_insertAt {order : List Uuid} {index : Nat} {id x : Uuid} :
    x ∈ insertAt order index id ↔ x = id ∨ x ∈ order := by
  rw [insertAt_eq_insertIdx, List.mem_insertIdx (Nat.min_le_right _ _)]

theorem filter_insertAt (order : List Uuid) (index : Nat) (id : Uuid) :
    (insertAt order index id).filter (· ≠ id) = order.filter (· ≠ id) := by
  simp only [insertAt, List.filter_append, List.filter_cons, ne_eq, not_true_eq_false, decide_false]
  rw [if_neg (by simp), ← List.filter_append, List.take_append_drop]

theorem filter_erase (order : List Uuid) (id : Uuid) :
    (order.erase id).filter (· ≠ id) = order.filter (· ≠ id) := by
  induction order with
  | nil => rfl
  | cons x order ih =>
    by_cases hx : x = id
    · simp [hx]
    · rw [List.erase_cons_tail (by simpa using hx)]
      simpa [hx] using ih

namespace OrderEdit

/-! ## What an accepted edit does -/

def result (e : OrderEdit) (s : Store) (c : Card) (order : List Uuid) : Store :=
  match e with
  | insert b _ => (s.putBlock b).putCard { c with contentOrder := order }
  | remove b => (s.putCard { c with contentOrder := order }).dropBlock b.id
  | move _ _ => s.putCard { c with contentOrder := order }

/-- what an edit asks of the blocks: a new one is not there yet and has its card, one to be removed is there -/
def Fits (s : Store) : OrderEdit → Prop
  | insert b _ => s.block? b.id = none ∧ (s.card? b.parentId).isSome
  | remove b => (s.block? b.id).isSome
  | move _ _ => True

/-- an edit made on the order that a card has in a history, as one step of that history -/
structure Written (e : OrderEdit) (card : Uuid) (order : List Uuid) (h h' : History) : Prop where
  effect : ∃ c, h.store.card? card = some c ∧ e.order? c.contentOrder = some order ∧ e.Fits h.store ∧
    h'.store = e.result h.store c order
  consistent : h'.store.Consistent card order
  pushed : ∃ step, h'.undos = step :: h.undos
  cleared : h'.redos = []

variable {e : OrderEdit} {read : Card} {group : List Mutation} {order : List Uuid} {now : Int}

theorem group_eq_ok_iff : e.group read = .ok (group, order) ↔
    e.order? read.contentOrder = some order ∧ group = (e.changes read order).map fun ch => ⟨ch, e.description⟩ := by
  unfold OrderEdit.group
  cases e.order? read.contentOrder with
  | none => simp
  | some o =>
    simp only [Except.ok.injEq, Prod.mk.injEq, Option.some.injEq]
    constructor
    · intro h
      obtain ⟨rfl, rfl⟩ := h
      exact ⟨rfl, rfl⟩
    · intro h
      obtain ⟨rfl, rfl⟩ := h
      exact ⟨rfl, rfl⟩

theorem group_ne_nil (hg : e.group read = .ok (group, order)) : group ≠ [] := by
  obtain ⟨-, rfl⟩ := group_eq_ok_iff.1 hg
  cases e <;> simp [changes]

/-- the store after the group of an edit, and what the edit found -/
theorem applyGroup_group {s t : Store} {inverses : List Mutation} (hg : e.group read = .ok (group, order))
    (happ : applyGroup now s group = .ok (t, inverses)) :
    ∃ c, s.card? read.id = some c ∧ c.contentOrder = read.contentOrder ∧ e.Fits s ∧ t = e.result s c order ∧
      t.Consistent read.id order := by
  obtain ⟨ho, rfl⟩ := group_eq_ok_iff.1 hg
  cases e with
  | insert b index =>
    obtain ⟨u, back, rest, hm, happ, -⟩ := applyGroup_cons_eq_ok_iff.1 happ
    obtain ⟨back', hm', -⟩ := applyGroup_singleton_eq_ok_iff.1 happ
    obtain ⟨hn, hp, rfl, -⟩ := Change.apply_insertBlock.1 (Mutation.apply_eq_ok_iff.1 hm).1
    obtain ⟨c, hc, hread, hcons, rfl, -⟩ := Change.apply_changeOrder.1 (Mutation.apply_eq_ok_iff.1 hm').1
    exact ⟨c, hc, hread, ⟨hn, hp⟩, rfl, hcons.nodup, hcons.owned⟩
  | remove b =>
    obtain ⟨u, back, rest, hm, happ, -⟩ := applyGroup_cons_eq_ok_iff.1 happ
    obtain ⟨back', hm', -⟩ := applyGroup_singleton_eq_ok_iff.1 happ
    obtain ⟨c, hc, hread, hcons, rfl, -⟩ := Change.apply_changeOrder.1 (Mutation.apply_eq_ok_iff.1 hm).1
    obtain ⟨x, hx, rfl, -⟩ := Change.apply_deleteBlock.1 (Mutation.apply_eq_ok_iff.1 hm').1
    refine ⟨c, hc, hread, by simpa [Fits] using Option.isSome_of_eq_some hx, rfl, hcons.nodup, fun id hid => ?_⟩
    obtain ⟨y, hy, hparent⟩ := hcons.owned id hid
    have hne : id ≠ b.id := by
      simp only [order?, Option.some.injEq] at ho
      have hmem : id ∈ read.contentOrder.filter (· ≠ b.id) := ho ▸ hid
      simpa using (List.mem_filter.1 hmem).2
    exact ⟨y, by rw [Store.block?_dropBlock, if_neg hne, Store.block?_putCard, hy], hparent⟩
  | move id index =>
    obtain ⟨back, hm, -⟩ := applyGroup_singleton_eq_ok_iff.1 happ
    obtain ⟨c, hc, hread, hcons, rfl, -⟩ := Change.apply_changeOrder.1 (Mutation.apply_eq_ok_iff.1 hm).1
    exact ⟨c, hc, hread, trivial, rfl, hcons.nodup, hcons.owned⟩

/-- **The order that was read is the present one.** An accepted group makes its edit on the order of that moment. -/
theorem written_of_commit {h h' : History} (hg : e.group read = .ok (group, order)) (hc : h.commit now group = .ok h') :
    e.Written read.id order h h' := by
  obtain ⟨t, inverses, happ, rfl⟩ := (History.commit_eq_ok_iff (group_ne_nil hg)).1 hc
  obtain ⟨c, hcard, hread, hfits, rfl, hcons⟩ := applyGroup_group hg happ
  exact ⟨⟨c, hcard, hread ▸ (group_eq_ok_iff.1 hg).1, hfits, rfl⟩, hcons, ⟨_, rfl⟩, rfl⟩

/-! ## Sound stores -/

/-- the block of an edit belongs to the card -/
def Owned (s : Store) (c : Card) : OrderEdit → Prop
  | insert b _ => b.parentId = c.id ∧ b.rootId = c.rootId
  | remove b => ∀ x, s.block? b.id = some x → x.parentId = c.id
  | move _ _ => True

/-- an edit with a block of the card keeps a store sound -/
theorem sound_result {s : Store} {c : Card} (hs : s.Sound) (hc : s.card? c.id = some c) (hfits : e.Fits s)
    (hown : e.Owned s c) (ho : e.order? c.contentOrder = some order)
    (hcons : (e.result s c order).Consistent c.id order) : (e.result s c order).Sound := by
  cases e with
  | insert b index =>
    cases ho
    exact hs.insert hfits.1 hc hown.1 hown.2 rfl hcons.nodup fun x => mem_insertAt
  | remove b =>
    cases ho
    obtain ⟨x, hx⟩ := Option.isSome_iff_exists.1 hfits
    have hid : x.id = b.id := Store.id_of_block? hx
    have hrem := hs.remove (b := x) (c := { c with contentOrder := c.contentOrder.filter (· ≠ b.id) })
      (by rw [hid, hx]) hc (hown x hx) rfl hcons.nodup (by simp [hid, and_comm])
    rwa [hid] at hrem
  | move id index =>
    simp only [order?] at ho
    split at ho
    · rename_i hmem
      cases ho
      refine hs.putCard_same hc rfl hcons.nodup fun x => ?_
      by_cases hx : x = id
      · simp [hx, hmem]
      · simp [hx, List.mem_erase_of_ne hx]
    · cases ho

/-- **An edit can be taken back.** On a sound store each change of an accepted edit finds what its inverse will need. -/
theorem retraceable_group {s t : Store} {inverses : List Mutation} (hs : s.Sound)
    (hg : e.group read = .ok (group, order)) (happ : applyGroup now s group = .ok (t, inverses)) :
    Retraceable now s group := by
  obtain ⟨c, hc, hread, hfits, -, -⟩ := applyGroup_group hg happ
  obtain ⟨-, rfl⟩ := group_eq_ok_iff.1 hg
  have hcons : s.Consistent read.id read.contentOrder := hread ▸ hs.consistent hc
  cases e with
  | insert b index =>
    refine ⟨trivial, fun u back hm => ⟨⟨hcons.nodup, fun id hid => ?_⟩, fun _ _ _ => trivial⟩⟩
    obtain ⟨-, -, rfl, -⟩ := Change.apply_insertBlock.1 (Mutation.apply_eq_ok_iff.1 hm).1
    obtain ⟨x, hx, hp⟩ := hcons.owned id hid
    refine ⟨x, ?_, hp⟩
    rw [Store.block?_putBlock, if_neg, hx]
    rintro rfl
    rw [hfits.1] at hx; cases hx
  | remove b =>
    refine ⟨hcons, fun u back hm => ⟨fun x hx => ?_, fun _ _ _ => trivial⟩⟩
    obtain ⟨c', -, -, -, rfl, -⟩ := Change.apply_changeOrder.1 (Mutation.apply_eq_ok_iff.1 hm).1
    have hparent := hs.isSome_parent hx
    rw [Store.card?_putCard]
    split
    · rfl
    · exact hparent
  | move id index => exact ⟨hcons, fun _ _ _ => trivial⟩

end OrderEdit

end Corkboard
