/-
Every reachable board is sound.

Requests mix in any order, and undo and redo come at any moment between the reading and the write of a content call.
Still the two records of a card's body never part: `store_sound` says that after every run the order of each card lists,
once each, exactly the blocks that name it, and that each block is on a card of its board.

The invariant is `Traffic.Kept`: some lineage of the identifiers that were given out agrees with the document, its whole
history, and all that the requests carry.
-/
import Corkboard.Proofs.Api.Step
import Corkboard.Proofs.Desk.Lineage

namespace Corkboard

namespace Lineage

variable {L L' : Lineage} {h h' : History} {x : Snapshots} {p p' : RequestPhase} {m : Ambient} {used : List Uuid}

/-- what a request carries agrees with the lineage -/
def BacksRequest (L : Lineage) : RequestPhase → Prop
  | .call t _ => L.Backs t.handle.card t.phase
  | _ => True

theorem BacksRequest.mono (hb : L.BacksRequest p) (hle : L.Le L') : L'.BacksRequest p := by
  cases p with
  | call t purpose => exact Backs.mono hb hle
  | _ => trivial

theorem backsRequest_afterCall {t : Task} {purpose : Purpose} (hb : L.Backs t.handle.card t.phase) :
    L.BacksRequest (RequestPhase.afterCall purpose t) := by
  unfold RequestPhase.afterCall
  split
  · trivial
  · exact hb

/-- only a content call carries something -/
theorem backsRequest_of_not_call (hp : ∀ t purpose, p ≠ .call t purpose) : L.BacksRequest p := by
  cases p with
  | call t purpose => exact (hp t purpose rfl).elim
  | _ => trivial

theorem backsRequest_calm (hc : RequestPhase.Calm h p p') : L.BacksRequest p' := by
  cases hc with
  | failed _ => trivial
  | answered _ => trivial
  | began _ hr => exact backsRequest_of_not_call fun _ _ he => by rw [he] at hr; exact hr
  | went _ hr =>
    refine backsRequest_of_not_call fun _ _ he => ?_
    rw [he] at hr
    rcases hr with hr | hr
    · exact hr
    · cases hr
  | opened _ _ => exact backs_start _ _
  | asked _ => trivial
  | parsed => trivial
  | readAgain _ => trivial
  | ended => trivial

/-- the snapshots after a step that may have been a deed -/
def after (x : Snapshots) (d : Option Deed) : Snapshots := d.elim x x.act

/-- **One step of a request** keeps the document, with a lineage that may have given out the fresh identifier. -/
theorem step (hk : L.Keeps h x) (hb : L.BacksRequest p) (ha : RequestPhase.Acts m h p h' p') (hw : L.Within used)
    (hid : m.id ∉ used) :
    ∃ L', L.Le L' ∧ L'.Within (m.id :: used) ∧ L'.BacksRequest p' ∧
      L'.Keeps h' (after x (RequestPhase.deed? h'.store p p')) := by
  have hsame : L.Within (m.id :: used) := hw.mono fun _ => List.mem_cons_of_mem _
  cases ha with
  | calm hc =>
    rw [RequestPhase.deed?_calm _ hc]
    exact ⟨L, .refl L, hsame, backsRequest_calm hc, hk⟩
  | @called t purpose _ _ hacts =>
    obtain ⟨handle, name, phase⟩ := t
    cases hacts with
    | quiet hn =>
      obtain ⟨L', hle, hwithin, hback⟩ := Backs.next hb hn hk.present_holds hw hid
      rw [RequestPhase.deed?_called_quiet _ hn]
      exact ⟨L', hle, hwithin, backsRequest_afterCall hback, hk.mono hle⟩
    | replaced hc =>
      rw [RequestPhase.deed?_called_replaced _ rfl]
      exact ⟨L, .refl L, hsame, trivial, hk.replaced hb hc⟩
    | edited hg hc =>
      obtain ⟨hedit, hread⟩ := hb
      rw [RequestPhase.deed?_called_edited _ rfl]
      exact ⟨L, .refl L, hsame, backsRequest_afterCall (backs_afterEdit _ _ _), hk.edited (hread ▸ hedit) hg hc⟩
  | undone hu => exact ⟨L, .refl L, hsame, trivial, hk.undo hu⟩
  | redone hr => exact ⟨L, .refl L, hsame, trivial, hk.redo hr⟩
  | @created title rootId =>
    have hn : L.cards m.id = none := hw.cards hid
    have hins := hk.insertCard (c := .fresh m.id (rootId.getD m.rootId) (title.getD "Untitled")) rfl hn
    exact ⟨_, le_addCard hn, within_addCard hsame hn List.mem_cons_self, trivial, hins⟩
  | wrote hc => exact ⟨L, .refl L, hsame, trivial, hk.property hc⟩

end Lineage

namespace Traffic

variable {w : AppWorld} {t : Traffic} {L : Lineage} {used : List Uuid}

/-- a lineage within the used identifiers agrees with the document and with all requests -/
structure Kept (used : List Uuid) (L : Lineage) (t : Traffic) : Prop where
  within : L.Within used
  keeps : L.Keeps t.history (Snapshots.replay t.deeds)
  backed : ∀ r ∈ t.requests, L.BacksRequest r.phase

theorem kept_new : Kept [] .empty new := ⟨⟨fun _ => rfl, fun _ => rfl⟩, .empty, by simp [new]⟩

theorem deeds_log (app : App) (requests : List Asked) (place : Nat) (d : Option Deed) :
    deeds ⟨app, requests, t.log ++ (d.map fun d => (place, d)).toList⟩ = t.deeds ++ d.toList := by
  cases d <;> simp [deeds]

theorem ids_cons (e : Event) (es : List Event) :
    (e :: es).filterMap Event.id? = e.id?.toList ++ es.filterMap Event.id? := by
  cases h : e.id? <;> simp [h]

theorem replay_snoc (ds : List Deed) (d : Option Deed) :
    Snapshots.replay (ds ++ d.toList) = Lineage.after (Snapshots.replay ds) d := by
  cases d with
  | none => simp [Lineage.after]
  | some d => simp [Snapshots.replay, Lineage.after]

theorem Kept.take (hk : Kept used L t) (e : Event) (hid : ∀ id ∈ e.id?, id ∉ used) :
    ∃ L', Kept (e.id?.toList ++ used) L' (t.take w e) := by
  cases e with
  | arrive c =>
    refine ⟨L, hk.within, hk.keeps, fun r hr => ?_⟩
    rcases List.mem_append.1 hr with hr | hr
    · exact hk.backed r hr
    · obtain rfl := List.mem_singleton.1 hr
      trivial
  | step place m =>
    have hm : m.id ∉ used := hid m.id rfl
    simp only [Traffic.take]
    cases hr : t.requests[place]? with
    | none => exact ⟨L, hk.within.mono fun _ => List.mem_cons_of_mem _, hk.keeps, hk.backed⟩
    | some r =>
      have hacts := RequestPhase.step_acts w m place t.app r.phase
      obtain ⟨L', hle, hwithin, hback, hkeeps⟩ :=
        Lineage.step hk.keeps (hk.backed r (List.mem_of_getElem? hr)) hacts hk.within hm
      refine ⟨L', hwithin, ?_, fun r' hr' => ?_⟩
      · rw [deeds_log, replay_snoc]
        exact hkeeps
      · rcases List.mem_or_eq_of_mem_set hr' with hr' | rfl
        · exact (hk.backed r' hr').mono hle
        · exact hback

/-- a run keeps the invariant, and the identifiers used afterwards were used before or are those of the run -/
theorem Kept.run_ids (hk : Kept used L t) (es : List Event) (hf : Fresh es)
    (hd : ∀ id ∈ es.filterMap Event.id?, id ∉ used) :
    ∃ used' L', Kept used' L' (t.run w es) ∧ ∀ id ∈ used', id ∈ used ∨ id ∈ es.filterMap Event.id? := by
  induction es generalizing t used L with
  | nil => exact ⟨used, L, hk, fun id => .inl⟩
  | cons e es ih =>
    rw [Fresh, ids_cons, List.nodup_append] at hf
    obtain ⟨-, hes, hapart⟩ := hf
    rw [ids_cons] at hd ⊢
    obtain ⟨L', hk'⟩ := hk.take (w := w) e fun id hid => hd id (List.mem_append_left _ (by simpa using hid))
    have hrest : ∀ id ∈ es.filterMap Event.id?, id ∉ e.id?.toList ++ used := by
      intro id hid hused
      rcases List.mem_append.1 hused with hmem | hmem
      · exact hapart id hmem id hid rfl
      · exact hd id (List.mem_append_right _ hid) hmem
    obtain ⟨used', L'', hk'', hused⟩ := ih hk' hes hrest
    refine ⟨used', L'', hk'', fun id hid => ?_⟩
    rcases hused id hid with hid | hid
    · rcases List.mem_append.1 hid with hid | hid
      · exact .inr (List.mem_append_left _ hid)
      · exact .inl hid
    · exact .inr (List.mem_append_right _ hid)

theorem Kept.run (hk : Kept used L t) (es : List Event) (hf : Fresh es)
    (hd : ∀ id ∈ es.filterMap Event.id?, id ∉ used) :
    ∃ used' L', Kept used' L' (t.run w es) := by
  obtain ⟨used', L', hk', -⟩ := hk.run_ids (w := w) es hf hd
  exact ⟨used', L', hk'⟩

/-- **Every reachable board is sound.** In whatever order requests arrive and take their steps, the order of each card
lists, once each, exactly the blocks that name it, and each block is on a card of its board. -/
theorem store_sound (w : AppWorld) (es : List Event) (hf : Fresh es) : (new.run w es).app.store.Sound := by
  obtain ⟨used, L, hk⟩ := kept_new.run (w := w) es hf (by simp)
  exact hk.keeps.present_sound

/-- a card, two additions to it of which the second waits for the lock of the first, and an undo -/
def tour : List Event :=
  [.arrive (.createCard none none), .step 0 ⟨0, ⟨1⟩, ⟨900⟩⟩, .arrive (.addContent ⟨1⟩ "text" none),
    .arrive (.addContent ⟨1⟩ "text" (some 0)), .arrive .undo] ++
  [1, 1, 1, 1, 1, 2, 2, 2, 2, 1, 1, 2, 2, 2, 2, 3].mapIdx fun k place => .step place ⟨k, ⟨.ofNat 128 (k + 2)⟩, .nil⟩

theorem tour_sound : Fresh tour ∧
    ((new.run (.ofConfig .default) tour).app.store.card? ⟨1⟩).map (·.contentOrder) = some [⟨4⟩] ∧
    (new.run (.ofConfig .default) tour).app.store.Sound :=
  ⟨by decide, rfl, store_sound (.ofConfig .default) tour (by decide)⟩

end Traffic

end Corkboard
