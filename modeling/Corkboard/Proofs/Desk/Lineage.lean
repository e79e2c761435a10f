/-
Where blocks come from.

A call may write a block that it read long ago, so it matters that an identifier always names a block of one card and
one board. A lineage keeps, for every identifier ever given, which card or block it was given to. It only grows, with
fresh identifiers, and agrees with every store of the history, past and future ones included, and with every block and
card that a call carries from one step to the next.

`Lineage.Keeps` is the invariant of a document: the history stands for its snapshots, and they are all sound and agree
with the lineage. Whatever requests do to a document keeps it.
-/
import Corkboard.Proofs.Desk.Step
import Corkboard.Proofs.History.Snapshots

namespace Corkboard

/-- the board of each card, and the card and board of each block, by identifier; the cards of blocks are on their
boards -/
structure Lineage where
  cards : Uuid → Option Uuid
  blocks : Uuid → Option (Uuid × Uuid)
  housed : ∀ {id parent root : Uuid}, blocks id = some (parent, root) → cards parent = some root

namespace Lineage

def empty : Lineage := ⟨fun _ => none, fun _ => none, nofun⟩

/-- a fresh identifier given to a card -/
def addCard (L : Lineage) (id root : Uuid) (hn : L.cards id = none) : Lineage where
  cards x := if x = id then some root else L.cards x
  blocks := L.blocks
  housed {x parent r} h := by
    have hp := L.housed h
    rw [if_neg, hp]
    rintro rfl
    rw [hn] at hp; cases hp

/-- an identifier given to a block of a card -/
def addBlock (L : Lineage) (id parent root : Uuid) (hp : L.cards parent = some root) : Lineage where
  cards := L.cards
  blocks x := if x = id then some (parent, root) else L.blocks x
  housed {x p r} h := by
    split at h
    · cases h; exact hp
    · exact L.housed h

/-- what one lineage has given, the other has too -/
structure Le (L L' : Lineage) : Prop where
  cards : ∀ {id root}, L.cards id = some root → L'.cards id = some root
  blocks : ∀ {id p}, L.blocks id = some p → L'.blocks id = some p

/-- all identifiers given are among the used ones -/
structure Within (L : Lineage) (used : List Uuid) : Prop where
  cards : ∀ {id}, id ∉ used → L.cards id = none
  blocks : ∀ {id}, id ∉ used → L.blocks id = none

/-- a store agrees with the lineage -/
structure Holds (L : Lineage) (s : Store) : Prop where
  cards : ∀ {id c}, s.card? id = some c → L.cards id = some c.rootId
  blocks : ∀ {id b}, s.block? id = some b → L.blocks id = some (b.parentId, b.rootId)

/-- a block agrees with the lineage -/
def Knows (L : Lineage) (b : Block) : Prop := L.blocks b.id = some (b.parentId, b.rootId)

/-- the block of an edit agrees with the lineage and is on the card -/
def BacksEdit (L : Lineage) (card : Uuid) : OrderEdit → Prop
  | .insert b _ | .remove b => L.Knows b ∧ b.parentId = card
  | .move _ _ => True

/-- what a call on a card carries agrees with the lineage -/
def Backs (L : Lineage) (card : Uuid) : Phase → Prop
  | .making _ _ _ c => L.cards c.id = some c.rootId ∧ c.id = card
  | .replacing new _ => L.Knows new
  | .waiting edit _ | .reading edit _ _ => L.BacksEdit card edit
  | .writing edit _ _ c => L.BacksEdit card edit ∧ c.id = card
  | _ => True

variable {L L' : Lineage} {s t : Store} {used used' : List Uuid} {card : Uuid} {p p' : Phase}

/-! ## Growth -/

theorem Le.refl (L : Lineage) : L.Le L := ⟨id, id⟩

theorem le_addCard {id root : Uuid} (hn : L.cards id = none) : L.Le (L.addCard id root hn) where
  cards {x r} h := by
    simp only [addCard]
    rw [if_neg, h]
    rintro rfl
    rw [hn] at h; cases h
  blocks h := h

theorem le_addBlock {id parent root : Uuid} (hp : L.cards parent = some root) (hn : L.blocks id = none) :
    L.Le (L.addBlock id parent root hp) where
  cards h := h
  blocks {x r} h := by
    simp only [addBlock]
    rw [if_neg, h]
    rintro rfl
    rw [hn] at h; cases h

theorem Within.mono (h : L.Within used) (hsub : ∀ id ∈ used, id ∈ used') : L.Within used' :=
  ⟨fun hid => h.cards fun hm => hid (hsub _ hm), fun hid => h.blocks fun hm => hid (hsub _ hm)⟩

theorem within_addCard {id root : Uuid} (h : L.Within used) (hn : L.cards id = none) (hid : id ∈ used) :
    (L.addCard id root hn).Within used where
  cards {x} hx := by
    simp only [addCard]
    rw [if_neg (by rintro rfl; exact hx hid), h.cards hx]
  blocks hx := h.blocks hx

theorem within_addBlock {id parent root : Uuid} (h : L.Within used) (hp : L.cards parent = some root)
    (hid : id ∈ used) :
    (L.addBlock id parent root hp).Within used where
  cards hx := h.cards hx
  blocks {x} hx := by
    simp only [addBlock]
    rw [if_neg (by rintro rfl; exact hx hid), h.blocks hx]

theorem Holds.mono (h : L.Holds s) (hle : L.Le L') : L'.Holds s :=
  ⟨fun hc => hle.cards (h.cards hc), fun hb => hle.blocks (h.blocks hb)⟩

theorem Knows.mono {b : Block} (h : L.Knows b) (hle : L.Le L') : L'.Knows b := hle.blocks h

theorem BacksEdit.mono {edit : OrderEdit} (h : L.BacksEdit card edit) (hle : L.Le L') : L'.BacksEdit card edit := by
  cases edit with
  | insert b index => exact ⟨h.1.mono hle, h.2⟩
  | remove b => exact ⟨h.1.mono hle, h.2⟩
  | move id index => trivial

theorem Backs.mono (h : L.Backs card p) (hle : L.Le L') : L'.Backs card p := by
  cases p with
  | making kind factory index c => exact ⟨hle.cards h.1, h.2⟩
  | replacing new old => exact Knows.mono h hle
  | waiting edit sequel => exact BacksEdit.mono h hle
  | reading edit sequel attempt => exact BacksEdit.mono h hle
  | writing edit sequel attempt c => exact ⟨h.1.mono hle, h.2⟩
  | _ => trivial

/-! ## Stores that agree -/

theorem Holds.of_alike (h : L.Holds t) (ha : s.Alike t) : L.Holds s where
  cards hc := h.cards (ha.cards _ ▸ hc)
  blocks hb := by
    obtain ⟨b', hb', he⟩ := ha.symm.exists_block? hb
    rw [h.blocks hb', Block.parentId_eq_of_unstamped he, Block.rootId_eq_of_unstamped he]

theorem Holds.putCard (h : L.Holds s) {c : Card} (hc : L.cards c.id = some c.rootId) : L.Holds (s.putCard c) where
  cards hx := by
    rw [Store.card?_putCard] at hx
    split at hx
    · rename_i hid
      cases hx; rw [hid, hc]
    · exact h.cards hx
  blocks hb := h.blocks hb

theorem Holds.putBlock (h : L.Holds s) {b : Block} (hb : L.Knows b) : L.Holds (s.putBlock b) where
  cards hc := h.cards hc
  blocks hx := by
    rw [Store.block?_putBlock] at hx
    split at hx
    · rename_i hid
      cases hx; rw [hid]; exact hb
    · exact h.blocks hx

theorem Holds.dropBlock (h : L.Holds s) (id : Uuid) : L.Holds (s.dropBlock id) where
  cards hc := h.cards hc
  blocks hx := by
    rw [Store.block?_dropBlock] at hx
    split at hx
    · cases hx
    · exact h.blocks hx

/-- a block that agrees with the lineage is on the card and the board of the stored one -/
theorem Holds.same_place (h : L.Holds s) {b x : Block} (hb : L.Knows b) (hx : s.block? b.id = some x) :
    b.parentId = x.parentId ∧ b.rootId = x.rootId := by
  have hx' := h.blocks hx
  rw [hb] at hx'
  simpa using hx'

theorem Holds.result (h : L.Holds s) {e : OrderEdit} {c : Card} (order : List Uuid) (hc : s.card? c.id = some c)
    (he : L.BacksEdit c.id e) : L.Holds (e.result s c order) := by
  have hroot : L.cards c.id = some c.rootId := h.cards hc
  cases e with
  | insert b index => exact (h.putBlock he.1).putCard (c := { c with contentOrder := order }) hroot
  | remove b => exact (h.putCard (c := { c with contentOrder := order }) hroot).dropBlock b.id
  | move id index => exact h.putCard (c := { c with contentOrder := order }) hroot

/-- an edit that agrees with the lineage is about a block of the card -/
theorem Holds.owned (h : L.Holds s) {e : OrderEdit} {c : Card} (hc : s.card? c.id = some c) (he : L.BacksEdit c.id e) :
    e.Owned s c := by
  cases e with
  | insert b index =>
    obtain ⟨hb, hp⟩ := he
    have hroot := L.housed hb
    rw [hp, h.cards hc] at hroot
    exact ⟨hp, by simpa using hroot.symm⟩
  | remove b =>
    intro x hx
    rw [← (h.same_place he.1 hx).1, he.2]
  | move id index => trivial

/-! ## Quiet steps of calls -/

theorem backs_composing (saved : List Block) (index : Nat) (drafts : List Committed) :
    L.Backs card (.composing saved index drafts) := by
  cases drafts <;> trivial

theorem backs_afterEdit (edit : OrderEdit) (sequel : Sequel) (order : List Uuid) :
    L.Backs card (Task.afterEdit edit sequel order) := by
  cases edit <;> trivial

/-- a call that has only started carries nothing -/
theorem backs_start (r : ContentRegistry) (k : Call) : L.Backs card (.start r k) := by
  cases k with
  | add tag index =>
    simp only [Phase.start]
    cases r.get? tag <;> trivial
  | save draft index =>
    obtain ⟨_ | id, tag, value⟩ := draft <;> trivial
  | compose lines index => exact backs_composing _ _ _
  | updateValue id value => trivial
  | delete id => trivial
  | move id index => trivial

/-- a call that goes on without a write still agrees with the lineage, which may have given out the fresh identifier -/
theorem Backs.next {h : History} {w : Ambient} (hb : L.Backs card p) (hn : Phase.Next h w card p p')
    (hs : L.Holds h.store) (hw : L.Within used) (hid : w.id ∉ used) :
    ∃ L', L.Le L' ∧ L'.Within (w.id :: used) ∧ L'.Backs card p' := by
  have hsame : L.Within (w.id :: used) := hw.mono fun _ => List.mem_cons_of_mem _
  have hfresh : L.blocks w.id = none := hw.blocks hid
  have hnew : ∀ (c : Card) (kind : String) (value : Json), L.cards c.id = some c.rootId → c.id = card →
      ∃ L', L.Le L' ∧ L'.Within (w.id :: used) ∧
        L'.BacksEdit card (.insert ((Block.fresh w.id w.now c.rootId kind value).attachTo c) 0) := by
    intro c kind value hc hcard
    refine ⟨L.addBlock w.id c.id c.rootId hc, le_addBlock hc hfresh, within_addBlock hsame hc List.mem_cons_self, ?_⟩
    exact ⟨if_pos rfl, hcard⟩
  cases hn with
  | opened hc =>
    have hroot := hs.cards hc
    rw [← Store.id_of_card? hc] at hroot
    exact ⟨L, .refl L, hsame, hroot, Store.id_of_card? hc⟩
  | made _ => exact hnew _ _ _ hb.1 hb.2
  | drafted hc =>
    have hroot := hs.cards hc
    rw [← Store.id_of_card? hc] at hroot
    exact hnew _ _ _ hroot (Store.id_of_card? hc)
  | sought hblock hp =>
    obtain rfl := Store.id_of_block? hblock
    exact ⟨L, .refl L, hsame, hs.blocks hblock, hp⟩
  | @fetched _ _ _ b hblock hp =>
    obtain rfl := Store.id_of_block? hblock
    have hk : L.Knows b := hs.blocks hblock
    exact ⟨L, .refl L, hsame, hk⟩
  | locked => exact ⟨L, .refl L, hsame, hb⟩
  | held => exact ⟨L, .refl L, hsame, hb⟩
  | read hc _ => exact ⟨L, .refl L, hsame, hb, Store.id_of_card? hc⟩
  | again _ _ _ _ => exact ⟨L, .refl L, hsame, hb.1⟩
  | @noted b sequel =>
    refine ⟨L, .refl L, hsame, ?_⟩
    cases sequel with
    | answer => trivial
    | compose saved drafts index => exact backs_composing _ _ _
  | ended => exact ⟨L, .refl L, hsame, trivial⟩
  | failed _ => exact ⟨L, .refl L, hsame, trivial⟩

/-! ## Documents -/

/-- the history stands for its snapshots, which are sound and agree with the lineage -/
structure Keeps (L : Lineage) (h : History) (x : Snapshots) : Prop where
  mirrors : h.Mirrors x
  sound : ∀ s ∈ x.all, s.Sound
  holds : ∀ s ∈ x.all, L.Holds s

namespace Keeps

variable {h h' : History} {x : Snapshots} {now : Int} {w : Ambient}

theorem empty : Lineage.empty.Keeps .empty .empty := by
  refine ⟨.empty, fun s hs => ?_, fun s hs => ?_⟩
  · obtain rfl : s = Store.empty := by simpa [Snapshots.all, Snapshots.empty] using hs
    exact Store.sound_empty
  · obtain rfl : s = Store.empty := by simpa [Snapshots.all, Snapshots.empty] using hs
    exact ⟨by simp, by simp⟩

theorem mono (hk : L.Keeps h x) (hle : L.Le L') : L'.Keeps h x :=
  ⟨hk.mirrors, hk.sound, fun s hs => (hk.holds s hs).mono hle⟩

theorem present_mem (x : Snapshots) : x.present ∈ x.all := List.mem_append_right _ List.mem_cons_self

theorem present_sound (hk : L.Keeps h x) : h.store.Sound := (hk.sound _ (present_mem x)).of_alike hk.mirrors.present

theorem present_holds (hk : L.Keeps h x) : L.Holds h.store := (hk.holds _ (present_mem x)).of_alike hk.mirrors.present

theorem of_subset {y : Snapshots} (hk : L.Keeps h x) (hm : h'.Mirrors y) (hsub : ∀ s ∈ y.all, s ∈ x.all) :
    L.Keeps h' y :=
  ⟨hm, fun s hs => hk.sound s (hsub s hs), fun s hs => hk.holds s (hsub s hs)⟩

theorem mem_all_prev {s : Store} (hs : s ∈ x.prev.all) : s ∈ x.all := by
  obtain ⟨_ | ⟨t, past⟩, present, future⟩ := x
  · exact hs
  · simp only [Snapshots.prev, Snapshots.undo?, Option.getD_some, Snapshots.all, List.mem_append, List.mem_cons] at *
    grind

theorem mem_all_next {s : Store} (hs : s ∈ x.next.all) : s ∈ x.all := by
  obtain ⟨past, present, _ | ⟨t, future⟩⟩ := x
  · exact hs
  · simp only [Snapshots.next, Snapshots.redo?, Option.getD_some, Snapshots.all, List.mem_append, List.mem_cons] at *
    grind

theorem undo (hk : L.Keeps h x) {description : String} (hu : h.undo now = .ok (h', description)) :
    L.Keeps h' x.prev := by
  obtain ⟨hnone, hsome⟩ := hk.mirrors.undo now
  cases hx : x.undo? with
  | none => rw [hnone hx] at hu; cases hu
  | some y =>
    obtain ⟨h₁, description₁, hu₁, hm⟩ := hsome y hx
    rw [hu] at hu₁; cases hu₁
    have hprev : x.prev = y := by simp only [Snapshots.prev, hx, Option.getD_some]
    exact hk.of_subset (hprev ▸ hm) fun s => mem_all_prev

theorem redo (hk : L.Keeps h x) {description : String} (hr : h.redo now = .ok (h', description)) :
    L.Keeps h' x.next := by
  obtain ⟨hnone, hsome⟩ := hk.mirrors.redo now
  cases hx : x.redo? with
  | none => rw [hnone hx] at hr; cases hr
  | some y =>
    obtain ⟨h₁, description₁, hr₁, hm⟩ := hsome y hx
    rw [hr] at hr₁; cases hr₁
    have hnext : x.next = y := by simp only [Snapshots.next, hx, Option.getD_some]
    exact hk.of_subset (hnext ▸ hm) fun s => mem_all_next

theorem mem_all_push {s u : Store} (hs : s ∈ (x.push u).all) : s = u ∨ s ∈ x.all := by
  simp only [Snapshots.push, Snapshots.all, List.mem_append, List.mem_cons, List.not_mem_nil] at *
  grind

/-- a group that can be taken back and leaves a sound store -/
theorem commit {ms : List Mutation} (hk : L.Keeps h x) (hne : ms ≠ []) (hc : h.commit now ms = .ok h')
    (hl : Leads ms h.store h'.store) (hs : h'.store.Sound) (hh : L.Holds h'.store) : L.Keeps h' (x.push h'.store) := by
  refine ⟨hk.mirrors.commit hne hc hl, fun s hmem => ?_, fun s hmem => ?_⟩
  · rcases mem_all_push hmem with rfl | hmem
    · exact hs
    · exact hk.sound s hmem
  · rcases mem_all_push hmem with rfl | hmem
    · exact hh
    · exact hk.holds s hmem

/-- a card under a fresh identifier -/
theorem insertCard {c : Card} (hk : L.Keeps h x) (ho : c.contentOrder = []) (hn : L.cards c.id = none) :
    (L.addCard c.id c.rootId hn).Keeps (h.insertCard c) (x.addCard c) := by
  have hnone : ∀ s ∈ x.all, s.card? c.id = none := by
    intro s hs
    cases hc : s.card? c.id with
    | none => rfl
    | some c' =>
      have hgiven := (hk.holds s hs).cards hc
      rw [hn] at hgiven; cases hgiven
  have hall : (x.addCard c).all = x.all.map (·.putCard c) := by simp [Snapshots.all, Snapshots.addCard]
  refine ⟨hk.mirrors.insertCard hnone, fun s hs => ?_, fun s hs => ?_⟩
  · obtain ⟨u, hu, rfl⟩ := List.mem_map.1 (hall ▸ hs)
    exact (hk.sound u hu).putCard_new (hnone u hu) ho
  · obtain ⟨u, hu, rfl⟩ := List.mem_map.1 (hall ▸ hs)
    exact ((hk.holds u hu).mono (le_addCard hn)).putCard (if_pos rfl)

/-- the replacement of a block by one that agrees with the lineage -/
theorem replaced {new old : Block} (hk : L.Keeps h x) (hb : L.Knows new) {description : String}
    (hc : h.commit now [⟨.updateBlock new old, description⟩] = .ok h') : L.Keeps h' (x.push h'.store) := by
  obtain ⟨t, inverses, hg, rfl⟩ := (History.commit_eq_ok_iff (by simp)).1 hc
  refine hk.commit (by simp) hc (leads_of_retraceable hg ⟨trivial, fun _ _ _ => trivial⟩) ?_ ?_
  all_goals
    obtain ⟨back, hm, -⟩ := applyGroup_singleton_eq_ok_iff.1 hg
    obtain ⟨b₀, hb₀, rfl, -⟩ := Change.apply_updateBlock.1 (Mutation.apply_eq_ok_iff.1 hm).1
  · obtain ⟨hp, hr⟩ := hk.present_holds.same_place hb hb₀
    exact hk.present_sound.putBlock_same hb₀ hp hr
  · exact hk.present_holds.putBlock hb

/-- the edit of an order with a block that agrees with the lineage -/
theorem edited {edit : OrderEdit} {read : Card} {group : List Mutation} {order : List Uuid} (hk : L.Keeps h x)
    (hb : L.BacksEdit read.id edit) (hgroup : edit.group read = .ok (group, order))
    (hc : h.commit now group = .ok h') : L.Keeps h' (x.push h'.store) := by
  have hne := OrderEdit.group_ne_nil hgroup
  have hw := OrderEdit.written_of_commit hgroup hc
  obtain ⟨t, inverses, hg, rfl⟩ := (History.commit_eq_ok_iff hne).1 hc
  obtain ⟨c, hcard, ho, hfits, hresult⟩ := hw.effect
  have hcons := hw.consistent
  have hid := Store.id_of_card? hcard
  rw [← hid] at hcard hb hcons
  refine hk.commit hne hc (leads_of_retraceable hg (OrderEdit.retraceable_group hk.present_sound hgroup hg)) ?_ ?_
  · rw [hresult] at hcons ⊢
    exact OrderEdit.sound_result hk.present_sound hcard hfits (hk.present_holds.owned hcard hb) ho hcons
  · rw [hresult]
    exact hk.present_holds.result order hcard hb

theorem property {card : Uuid} {templateId description : String} {old new : Option Json} (hk : L.Keeps h x)
    (hc : h.commit now [⟨.setProperty card templateId old new, description⟩] = .ok h') :
    L.Keeps h' (x.push h'.store) := by
  obtain ⟨t, inverses, hg, rfl⟩ := (History.commit_eq_ok_iff (by simp)).1 hc
  refine hk.commit (by simp) hc (leads_of_retraceable hg ⟨trivial, fun _ _ _ => trivial⟩) ?_ ?_
  all_goals
    obtain ⟨back, hm, -⟩ := applyGroup_singleton_eq_ok_iff.1 hg
    obtain ⟨c, hcard, rfl, -⟩ := Change.apply_setProperty.1 (Mutation.apply_eq_ok_iff.1 hm).1
    have hid := Store.id_of_card? hcard
    rw [← hid] at hcard
  · have hnodup : c.contentOrder.Nodup := hk.present_sound.nodup hcard
    exact hk.present_sound.putCard_same hcard rfl hnodup fun _ => Iff.rfl
  · have hroot : L.cards c.id = some c.rootId := hk.present_holds.cards hcard
    exact hk.present_holds.putCard hroot

end Keeps

end Lineage

end Corkboard
