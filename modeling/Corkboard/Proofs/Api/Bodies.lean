/-
Bodies as they are shown.

A body leaves out what it cannot show: an entry of the order that names no block, and a block whose type the registry
does not have. Does any of a card ever go missing that way?

- `nothing_left_out`: in no reachable state. Each entry of each order is shown once, in its place, and a preview shows
  the first image instead of the body if there is one, else the whole body.

The invariant is `Traffic.Served`: all blocks are of types that the registry has, in past and future stores too.
-/
import Corkboard.Proofs.Api.Moments
import Corkboard.Proofs.Desk.Compositions
import Corkboard.Proofs.Desk.Served

namespace Corkboard

/-- where each entry has an image, none is left out -/
theorem forall₂_filterMap {α β : Type} {R : α → β → Prop} {f : α → Option β} {as : List α}
    (h : ∀ a ∈ as, ∃ b, f a = some b ∧ R a b) : List.Forall₂ R as (as.filterMap f) := by
  induction as with
  | nil => exact .nil
  | cons a as ih =>
    obtain ⟨b, hb, hr⟩ := h a List.mem_cons_self
    rw [List.filterMap_cons_some hb]
    exact .cons hr (ih fun a' ha' => h a' (List.mem_cons_of_mem _ ha'))

theorem map_eq_of_forall₂ {α β γ : Type} {R : α → β → Prop} {f : α → γ} {g : β → γ} {as : List α} {bs : List β}
    (h : List.Forall₂ R as bs) (hfg : ∀ a b, R a b → g b = f a) : bs.map g = as.map f := by
  induction h with
  | nil => rfl
  | cons hr _ ih => rw [List.map_cons, List.map_cons, hfg _ _ hr, ih]

/-! ## One body -/

namespace Gallery

variable {r : ContentRegistry} {s : Store} {c : Card}

/-- the body of a card is shown whole: each entry of its order names a block of the card, and each of these blocks is
shown by its type, once and in its place -/
structure ShowsAll (r : ContentRegistry) (s : Store) (c : Card) : Prop where
  resolved : List.Forall₂ (fun id b => s.block? id = some b ∧ b.parentId = c.id) c.contentOrder (s.contents c.id)
  shown : List.Forall₂ (fun b e => renderBlock? r b = some e) (s.contents c.id) (renderContents r s c.id)

theorem renderBlock?_eq_some_iff {b : Block} {e : RenderedBlock} : renderBlock? r b = some e ↔
    ∃ h, r.get? b.kind = some h ∧ e = ⟨b.id, b.kind, h.display b.value⟩ := by
  rw [renderBlock?, Option.map_eq_some_iff]
  exact exists_congr fun h => and_congr_right fun _ => eq_comm

theorem exists_renderBlock? {card : Uuid} {b : Block} (hs : s.Served r) (hb : b ∈ s.contents card) :
    ∃ e, renderBlock? r b = some e := by
  unfold Store.contents at hb
  split at hb
  · obtain ⟨id, -, hid⟩ := List.mem_filterMap.1 hb
    obtain ⟨h, hh⟩ := Option.isSome_iff_exists.1 (hs id b hid)
    exact ⟨_, renderBlock?_eq_some_iff.2 ⟨h, hh, rfl⟩⟩
  · cases hb

theorem showsAll (hs : s.Sound) (hserved : s.Served r) (hc : s.card? c.id = some c) : ShowsAll r s c := by
  have hcontents : s.contents c.id = c.contentOrder.filterMap s.block? := by simp only [Store.contents, hc]
  constructor
  · rw [hcontents]
    refine forall₂_filterMap fun id hid => ?_
    obtain ⟨b, hb, hp⟩ := (hs.listed hc id).1 hid
    exact ⟨b, hb, hb, hp⟩
  · refine forall₂_filterMap fun b hb => ?_
    obtain ⟨e, he⟩ := exists_renderBlock? hserved hb
    exact ⟨e, he, he⟩

theorem ShowsAll.ids (ha : ShowsAll r s c) : (renderContents r s c.id).map (·.id) = c.contentOrder := by
  have hblocks : (s.contents c.id).map (·.id) = c.contentOrder.map id :=
    map_eq_of_forall₂ ha.resolved fun id b hb => Store.id_of_block? hb.1
  have hshown : (renderContents r s c.id).map (·.id) = (s.contents c.id).map (·.id) := by
    refine map_eq_of_forall₂ ha.shown fun b e he => ?_
    obtain ⟨h, -, rfl⟩ := renderBlock?_eq_some_iff.1 he
    rfl
  rw [hshown, hblocks, List.map_id]

/-- the first block of a type is shown by the first entry of it -/
theorem find?_of_shown {bs : List Block} {es : List RenderedBlock}
    (hs : List.Forall₂ (fun b e => renderBlock? r b = some e) bs es) (tag : String) :
    es.find? (·.tag = tag) = (bs.find? (·.kind = tag)).bind (renderBlock? r) := by
  induction hs with
  | nil => rfl
  | @cons b e bs es he _ ih =>
    obtain ⟨h, -, rfl⟩ := renderBlock?_eq_some_iff.1 he
    by_cases ht : b.kind = tag
    · simp [ht, he]
    · simp [ht, ih]

end Gallery

/-! ## All bodies -/

namespace RequestPhase

variable {r : ContentRegistry} {m : Ambient} {h h' : History} {x : Snapshots} {p p' : RequestPhase}

/-- what a request carries is of types that the registry has -/
def Served (r : ContentRegistry) : RequestPhase → Prop
  | call t _ => t.phase.Served r
  | _ => True

/-- all stores of the history, after a step of a request -/
theorem Served.snapshots (hp : p.Served r) (hx : ∀ s ∈ x.all, s.Served r) (hm : h.store.Alike x.present)
    (ha : Acts m h p h' p') : ∀ s ∈ (Lineage.after x (deed? h'.store p p')).all, s.Served r := by
  have hpresent : h.store.Served r := (hx _ (Lineage.Keeps.present_mem x)).of_alike hm
  have hpush : h'.store.Served r → ∀ s ∈ (x.push h'.store).all, s.Served r := by
    intro hs s hmem
    rcases Lineage.Keeps.mem_all_push hmem with rfl | hmem
    · exact hs
    · exact hx s hmem
  cases ha with
  | calm hc =>
    rw [deed?_calm _ hc]
    exact hx
  | @called t purpose _ _ hacts =>
    have hs := (hacts.served hp hpresent).1
    obtain ⟨handle, name, phase⟩ := t
    cases hacts with
    | quiet hn =>
      rw [deed?_called_quiet _ hn]
      exact hx
    | replaced _ =>
      rw [deed?_called_replaced _ rfl]
      exact hpush hs
    | edited _ _ =>
      rw [deed?_called_edited _ rfl]
      exact hpush hs
  | undone _ => exact fun s hs => hx s (Lineage.Keeps.mem_all_prev hs)
  | redone _ => exact fun s hs => hx s (Lineage.Keeps.mem_all_next hs)
  | @created title rootId =>
    intro s hs
    have hall : ∀ c : Card, (x.addCard c).all = x.all.map (·.putCard c) := fun c => by
      simp [Snapshots.all, Snapshots.addCard]
    obtain ⟨u, hu, rfl⟩ := List.mem_map.1 (hall _ ▸ hs)
    exact (hx u hu).putCard _
  | @wrote c templateId v _ hc =>
    refine hpush ?_
    obtain ⟨t, inverses, hg, rfl⟩ := (History.commit_eq_ok_iff (by simp)).1 hc
    obtain ⟨back, hmut, -⟩ := applyGroup_singleton_eq_ok_iff.1 hg
    obtain ⟨c₀, -, rfl, -⟩ := Change.apply_setProperty.1 (Mutation.apply_eq_ok_iff.1 hmut).1
    exact hpresent.putCard _

theorem Served.step {w : AppWorld} {a : App} (hp : p.Served w.content) (hs : a.store.Served w.content) (m : Ambient)
    (name : Nat) : (p.step w m name a).2.Served w.content := by
  cases p with
  | start c =>
    have hopen : ∀ (card : Uuid) (purpose : Purpose) (k : Call), k.Served w.content →
        (openCall w a name card purpose k).Served w.content := by
      intro card purpose k hk
      unfold openCall
      split
      · trivial
      · exact Phase.served_start hk
    cases c with
    | addContent | compose | updateContent | deleteContent | moveContent => exact hopen _ _ _ trivial
    | putTemplate | calculate | getCard | previewCard | setProperty =>
      simp only [RequestPhase.step, begin]
      split <;> trivial
    | undo | redo =>
      simp only [RequestPhase.step, begin, ofHistory]
      split <;> trivial
    | _ => trivial
  | call t purpose =>
    obtain ⟨-, hacts⟩ := t.step_acts m a.desk
    have hnext : (t.step .plain m a.desk).2.phase.Served w.content := (hacts.served hp hs).2
    simp only [RequestPhase.step, afterCall]
    split
    · trivial
    · exact hnext
  | search text q =>
    simp only [RequestPhase.step]
    split <;> trivial
  | compute | parseInput | writeProperty | readBack =>
    simp only [RequestPhase.step]
    split <;> trivial
  | _ => trivial

end RequestPhase

namespace Traffic

variable {w : AppWorld} {t : Traffic} {L : Lineage} {used : List Uuid}

/-- all blocks are of types that the registry has, those of past and future stores and those of requests too -/
structure Served (r : ContentRegistry) (t : Traffic) : Prop where
  stores : ∀ s ∈ (Snapshots.replay t.deeds).all, s.Served r
  requests : ∀ q ∈ t.requests, q.phase.Served r

theorem served_new (r : ContentRegistry) : Served r new := by
  refine ⟨fun s hs => ?_, by simp [new]⟩
  obtain rfl : s = Store.empty := by simpa [Snapshots.replay, Snapshots.all, Snapshots.empty, deeds, new] using hs
  exact Store.served_empty

theorem Served.present {r : ContentRegistry} (hs : Served r t) (hk : Kept used L t) : t.app.store.Served r :=
  (hs.stores _ (Lineage.Keeps.present_mem _)).of_alike hk.keeps.mirrors.present

theorem Served.take (hs : Served w.content t) (hk : Kept used L t) (e : Event) : Served w.content (t.take w e) := by
  cases e with
  | arrive c =>
    refine ⟨hs.stores, fun q hq => ?_⟩
    rcases List.mem_append.1 hq with hq | hq
    · exact hs.requests q hq
    · obtain rfl := List.mem_singleton.1 hq
      trivial
  | step place m =>
    simp only [Traffic.take]
    cases hq : t.requests[place]? with
    | none => exact hs
    | some q =>
      have hserved := hs.requests q (List.mem_of_getElem? hq)
      refine ⟨?_, fun q' hq' => ?_⟩
      · rw [deeds_log, replay_snoc]
        exact hserved.snapshots hs.stores hk.keeps.mirrors.present (RequestPhase.step_acts w m place t.app q.phase)
      · rcases List.mem_or_eq_of_mem_set hq' with hq' | rfl
        · exact hs.requests q' hq'
        · exact hserved.step (hs.present hk) m place

theorem served_run (w : AppWorld) (es : List Event) (hf : Fresh es) : Served w.content (new.run w es) := by
  induction es using List.reverseRecOn with
  | nil => exact served_new _
  | append_singleton es e ih =>
    obtain ⟨used, L, hk⟩ := kept_new.run (w := w) es hf.left (by simp)
    rw [run_snoc]
    exact (ih hf.left).take hk e

/-- the body of a card as requests show it -/
theorem showsAll_run (w : AppWorld) (es : List Event) (hf : Fresh es) {c : Card}
    (hc : (new.run w es).app.store.card? c.id = some c) : Gallery.ShowsAll w.content (new.run w es).app.store c := by
  obtain ⟨used, L, hk⟩ := kept_new.run (w := w) es hf (by simp)
  exact Gallery.showsAll hk.keeps.present_sound ((served_run w es hf).present hk) hc

/-- the blocks shown of a card are those of its order, none if it is missing -/
theorem ids_renderContents (w : AppWorld) (es : List Event) (hf : Fresh es) (card : Uuid) :
    (Gallery.renderContents w.content (new.run w es).app.store card).map (·.id) =
      (new.run w es).history.orderOf card := by
  cases hc : (new.run w es).app.store.card? card with
  | none =>
    have hmissing : (new.run w es).history.store.card? card = none := hc
    simp [Gallery.renderContents, Store.contents, History.orderOf, hc, hmissing]
  | some c =>
    obtain rfl := Store.id_of_card? hc
    have hstored : (new.run w es).history.store.card? c.id = some c := hc
    rw [(showsAll_run w es hf hc).ids, History.orderOf, hstored]
    rfl

/-- **Nothing is left out.** In every reachable state all blocks are of types that the registry has, and of every card
each entry of the order is a block of the card and is shown once, in its place. The preview of the card, as any request
has read it, shows the first image of the order and no body if there is one, else the whole body. -/
theorem nothing_left_out (w : AppWorld) (es : List Event) (hf : Fresh es) :
    let a := (new.run w es).app
    a.store.Served w.content ∧
    ∀ c, a.store.card? c.id = some c →
      Gallery.ShowsAll w.content a.store c ∧
      (Gallery.renderContents w.content a.store c.id).map (·.id) = c.contentOrder ∧
      ∀ read : Card, read.id = c.id →
        let preview := Gallery.preview w.content w.properties a.store a.board read
        match (a.store.contents c.id).find? (·.kind = "image") with
        | some b =>
          ∃ image, Gallery.renderBlock? w.content b = some image ∧ preview.image = some image ∧ preview.contents = []
        | none => preview.image = none ∧ preview.contents = Gallery.renderContents w.content a.store c.id := by
  intro a
  obtain ⟨used, L, hk⟩ := kept_new.run (w := w) es hf (by simp)
  have hserved : a.store.Served w.content := (served_run w es hf).present hk
  refine ⟨hserved, fun c hc => ?_⟩
  have hall : Gallery.ShowsAll w.content a.store c := showsAll_run w es hf hc
  refine ⟨hall, hall.ids, fun read hread => ?_⟩
  have himage := Gallery.find?_of_shown hall.shown "image"
  cases hfind : (a.store.contents c.id).find? (·.kind = "image") with
  | none =>
    rw [hfind] at himage
    simp [Gallery.preview, hread, himage]
  | some b =>
    obtain ⟨image, hshown⟩ := Gallery.exists_renderBlock? hserved (List.mem_of_find?_eq_some hfind)
    rw [hfind, Option.bind_some, hshown] at himage
    exact ⟨image, hshown, by simp [Gallery.preview, hread, himage]⟩

/-- a card, a text on it, and an image below -/
def illustrated : List Event :=
  [.arrive (.createCard none none), .step 0 ⟨0, ⟨1⟩, ⟨900⟩⟩, .arrive (.addContent ⟨1⟩ "text" none),
    .arrive (.addContent ⟨1⟩ "image" none)] ++
  [1, 1, 1, 1, 1, 1, 1, 2, 2, 2, 2, 2, 2, 2].mapIdx fun k place => .step place ⟨k, ⟨.ofNat 128 (k + 2)⟩, .nil⟩

theorem illustrated_shows_image :
    let a := (new.run (.ofConfig .default) illustrated).app
    let c : Card := ⟨⟨1⟩, ⟨900⟩, "Untitled", [⟨4⟩, ⟨11⟩], .empty⟩
    let preview := Gallery.preview (.builtin .firstRegistered) PropertyRegistry.builtin a.store a.board c
    Fresh illustrated ∧ a.store.card? c.id = some c ∧
      (Gallery.renderContents (.builtin .firstRegistered) a.store c.id).map (·.id) = [⟨4⟩, ⟨11⟩] ∧
      preview.image.map (fun e => (e.id, e.tag)) = some (⟨11⟩, "image") ∧ preview.contents = [] := by
  intro a c preview
  have hf : Fresh illustrated := by decide
  have hc : a.store.card? c.id = some c := rfl
  have hfind : (a.store.contents c.id).find? (·.kind = "image") =
      some ⟨⟨11⟩, ⟨1⟩, ⟨900⟩, "image", Payload.ofFile "", 9, 9⟩ := rfl
  obtain ⟨-, hids, hpreview⟩ := (nothing_left_out (.ofConfig .default) illustrated hf).2 c hc
  have himage := hpreview c rfl
  dsimp only at himage
  rw [hfind] at himage
  obtain ⟨image, hshown, hpreviewed, hnone⟩ := himage
  obtain ⟨h, -, rfl⟩ := Gallery.renderBlock?_eq_some_iff.1 hshown
  have hpair : preview.image = some ⟨⟨11⟩, "image", h.display (Payload.ofFile "")⟩ := hpreviewed
  exact ⟨hf, hc, hids, by rw [hpair]; rfl, hnone⟩

end Traffic

end Corkboard
