/-
The history of the board as snapshots.

What the requests have done to the document, replayed on snapshots, gives at every moment what the history stands for:
`history_follows` puts together, for every run, that undo and redo go to the neighbouring snapshots and fail only when
there is none, that any number of undos is made good by as many redos, how many groups each request has committed, and
that undoing everything leaves the cards as they were created and no block.
-/
import Corkboard.Proofs.Api.Counts
import Corkboard.Proofs.Api.Soundness

namespace Corkboard

/-! ## The oldest store -/

namespace Snapshots

def created (deeds : List Deed) : List Card := deeds.filterMap Deed.card?

theorem mem_created {deeds : List Deed} {c : Card} : c ∈ created deeds ↔ .created c ∈ deeds := by
  rw [created, List.mem_filterMap]
  constructor
  · intro h
    obtain ⟨d, hd, hc⟩ := h
    cases d <;> cases hc
    exact hd
  · intro hd
    exact ⟨_, hd, rfl⟩

theorem oldest_act (x : Snapshots) (d : Deed) : (x.act d).oldest = (d.card?.toList).foldl Store.putCard x.oldest := by
  obtain ⟨past, present, future⟩ := x
  cases d with
  | wrote s => cases past <;> simp [act, push, oldest, Deed.card?, List.getLast?_cons]
  | undid => cases past <;> simp [act, prev, undo?, oldest, Deed.card?, List.getLast?_cons]
  | redid =>
    cases future <;> cases past <;> simp [act, next, redo?, oldest, Deed.card?, List.getLast?_cons]
  | created c => simp only [act, addCard, oldest, Deed.card?, List.getLast?_map]; cases past.getLast? <;> rfl

/-- undoing everything leads to the created cards alone -/
theorem oldest_replay (deeds : List Deed) : (replay deeds).oldest = (created deeds).foldl Store.putCard .empty := by
  suffices h : ∀ x : Snapshots, (deeds.foldl act x).oldest = (created deeds).foldl Store.putCard x.oldest from h empty
  induction deeds with
  | nil => exact fun _ => rfl
  | cons d deeds ih =>
    intro x
    rw [List.foldl_cons, ih, oldest_act]
    cases hd : d.card? <;> simp [created, hd]

end Snapshots

namespace Store

theorem block?_putCards (s : Store) (cs : List Card) (id : Uuid) : (cs.foldl putCard s).block? id = s.block? id := by
  induction cs generalizing s with
  | nil => rfl
  | cons c cs ih => exact ih (s.putCard c)

theorem card?_putCards {s : Store} {cs : List Card} (hn : (cs.map (·.id)).Nodup) (hs : ∀ c ∈ cs, s.card? c.id = none)
    (id : Uuid) (c : Card) : (cs.foldl putCard s).card? id = some c ↔ s.card? id = some c ∨ c ∈ cs ∧ c.id = id := by
  induction cs generalizing s with
  | nil => simp
  | cons c' cs ih =>
    obtain ⟨hc', hn⟩ := List.nodup_cons.1 hn
    have hfresh : ∀ c ∈ cs, (s.putCard c').card? c.id = none := by
      intro c hc
      rw [card?_putCard, if_neg, hs c (List.mem_cons_of_mem _ hc)]
      exact fun he => hc' (List.mem_map.2 ⟨c, hc, he⟩)
    rw [List.foldl_cons, ih hn hfresh, card?_putCard, List.mem_cons]
    by_cases hid : id = c'.id
    · rw [if_pos hid, hid, hs c' List.mem_cons_self]
      constructor
      · intro h
        rcases h with he | ⟨hc, he⟩
        · cases he; exact .inr ⟨.inl rfl, rfl⟩
        · exact .inr ⟨.inr hc, he⟩
      · intro h
        rcases h with he | ⟨rfl | hc, he⟩
        · cases he
        · exact .inl rfl
        · exact .inr ⟨hc, he⟩
    · rw [if_neg hid]
      constructor
      · intro h
        rcases h with he | ⟨hc, he⟩
        · exact .inl he
        · exact .inr ⟨.inr hc, he⟩
      · intro h
        rcases h with he | ⟨rfl | hc, he⟩
        · exact .inl he
        · exact absurd he.symm hid
        · exact .inr ⟨hc, he⟩

end Store

/-! ## Created cards -/

namespace RequestPhase

theorem created_ids {m : Ambient} {h h' : History} {p p' : RequestPhase} (ha : Acts m h p h' p') :
    (((deed? h'.store p p').toList.filterMap Deed.card?).map (·.id)).Sublist [m.id] := by
  cases ha with
  | calm hc => simp [deed?_calm _ hc]
  | @called t purpose _ _ hacts =>
    obtain ⟨handle, name, phase⟩ := t
    cases hacts with
    | quiet hn => simp [deed?_called_quiet _ hn]
    | replaced _ =>
      rw [deed?_called_replaced _ rfl]
      exact List.nil_sublist _
    | edited _ _ =>
      rw [deed?_called_edited _ rfl]
      exact List.nil_sublist _
  | undone _ => exact List.nil_sublist _
  | redone _ => exact List.nil_sublist _
  | created => exact .refl _
  | wrote _ => exact List.nil_sublist _

end RequestPhase

namespace Traffic

variable {w : AppWorld} {t : Traffic}

theorem created_take (t : Traffic) (e : Event) : ∃ ids, ids.Sublist e.id?.toList ∧
    (Snapshots.created (t.take w e).deeds).map (·.id) = (Snapshots.created t.deeds).map (·.id) ++ ids := by
  cases e with
  | arrive c => exact ⟨[], .refl _, by simp [take, deeds]⟩
  | step place m =>
    simp only [take]
    cases hr : t.requests[place]? with
    | none => exact ⟨[], List.nil_sublist _, by simp⟩
    | some r =>
      have hacts := RequestPhase.step_acts w m place t.app r.phase
      refine ⟨_, RequestPhase.created_ids hacts, ?_⟩
      simp only [deeds_log, Snapshots.created, List.filterMap_append, List.map_append]
      rfl

/-- cards are created under identifiers of their own -/
theorem created_run (t : Traffic) (es : List Event) : ∃ ids, ids.Sublist (es.filterMap Event.id?) ∧
    (Snapshots.created (t.run w es).deeds).map (·.id) = (Snapshots.created t.deeds).map (·.id) ++ ids := by
  induction es generalizing t with
  | nil => exact ⟨[], .refl _, by simp [run]⟩
  | cons e es ih =>
    obtain ⟨ids, hsub, hids⟩ := created_take (w := w) t e
    obtain ⟨ids', hsub', hids'⟩ := ih (t.take w e)
    refine ⟨ids ++ ids', ?_, hids'.trans (by rw [hids, List.append_assoc])⟩
    rw [ids_cons]
    exact hsub.append hsub'

/-! ## The history and its snapshots -/

end Traffic

/-- what can be seen of a history is what its snapshots say -/
structure History.Follows (h : History) (x : Snapshots) : Prop where
  store : h.store.Alike x.present
  undo_depth : h.undos.length = x.past.length
  redo_depth : h.redos.length = x.future.length
  undo : ∀ now, match x.undo? with
    | none => h.undo now = .error .nothingToUndo
    | some y => ∃ h' description, h.undo now = .ok (h', description) ∧ h'.store.Alike y.present
  redo : ∀ now, match x.redo? with
    | none => h.redo now = .error .nothingToRedo
    | some y => ∃ h' description, h.redo now = .ok (h', description) ∧ h'.store.Alike y.present

theorem History.Mirrors.follows {h : History} {x : Snapshots} (hm : h.Mirrors x) : h.Follows x where
  store := hm.present
  undo_depth := hm.length_past
  redo_depth := hm.length_future
  undo now := by
    obtain ⟨hnone, hsome⟩ := hm.undo now
    split
    · rename_i hx
      exact hnone hx
    · rename_i y hx
      obtain ⟨h', description, hu, hm'⟩ := hsome y hx
      exact ⟨h', description, hu, hm'.present⟩
  redo now := by
    obtain ⟨hnone, hsome⟩ := hm.redo now
    split
    · rename_i hx
      exact hnone hx
    · rename_i y hx
      obtain ⟨h', description, hr, hm'⟩ := hsome y hx
      exact ⟨h', description, hr, hm'.present⟩

namespace Traffic

/-- undoing everything leaves the created cards and no block -/
theorem all_undone {w : AppWorld} {es : List Event} {used : List Uuid} {L : Lineage} (hf : Fresh es)
    (hk : Kept used L (new.run w es)) (later : List Int) (hlen : later.length = (new.run w es).history.undos.length) :
    ∃ h, (new.run w es).history.undoAll later = .ok h ∧ (∀ id, h.store.block? id = none) ∧
      ∀ id c, h.store.card? id = some c ↔ .created c ∈ (new.run w es).deeds ∧ c.id = id := by
  obtain ⟨ids, hsub, hids⟩ := created_run (w := w) new es
  have hnodup : ((Snapshots.created (new.run w es).deeds).map (·.id)).Nodup := hids ▸ hf.sublist hsub
  rw [hk.keeps.mirrors.length_past] at hlen
  obtain ⟨h, hall, hm⟩ := hk.keeps.mirrors.undoAll later (Nat.le_of_eq hlen)
  have holdest := hm.present
  rw [hlen, Snapshots.present_back, Snapshots.oldest_replay] at holdest
  refine ⟨h, hall, fun id => holdest.block?_eq_none (by rw [Store.block?_putCards, Store.block?_empty]), fun id c => ?_⟩
  rw [holdest.cards, Store.card?_putCards hnodup (by simp), Snapshots.mem_created, Store.card?_empty]
  simp

/-- **The history of the board is a history of snapshots**, for every order of arrivals and steps. Undo and redo go to
the neighbouring snapshots and fail only when there is none; some undos are made good by as many redos; undoing
everything leaves the cards as they were created and no block; and every request that succeeded has pushed what its
reply tells. -/
theorem history_follows (w : AppWorld) (es : List Event) (hf : Fresh es) :
    (new.run w es).history.Follows (Snapshots.replay (new.run w es).deeds) ∧
    (∀ later latest : List Int, later.length ≤ (new.run w es).history.undos.length → latest.length = later.length →
      ∃ back forth, (new.run w es).history.undoAll later = .ok back ∧ back.redoAll latest = .ok forth ∧
        forth.store.Alike (new.run w es).history.store) ∧
    (∀ later : List Int, later.length = (new.run w es).history.undos.length →
      ∃ h, (new.run w es).history.undoAll later = .ok h ∧ (∀ id, h.store.block? id = none) ∧
        ∀ id c, h.store.card? id = some c ↔ .created c ∈ (new.run w es).deeds ∧ c.id = id) ∧
    ∀ place r reply, (new.run w es).requests[place]? = some r → r.phase = .done reply → (∀ e, reply ≠ .failed e) →
      r.command.pushes? reply = some ((new.run w es).written place) := by
  obtain ⟨used, L, hk⟩ := kept_new.run (w := w) es hf (by simp)
  exact ⟨hk.keeps.mirrors.follows, hk.keeps.mirrors.back_and_forth, all_undone hf hk,
    fun place r reply => written_of_reply w es⟩

theorem tour_back_and_forth : Fresh tour ∧ (new.run (.ofConfig .default) tour).history.undos.length = 1 ∧
    ∀ later latest, ∃ back forth, (new.run (.ofConfig .default) tour).history.undoAll [later] = .ok back ∧
      back.redoAll [latest] = .ok forth ∧ forth.store.Alike (new.run (.ofConfig .default) tour).history.store := by
  have hfresh : Fresh tour := by decide
  have hdepth : (new.run (.ofConfig .default) tour).history.undos.length = 1 := rfl
  exact ⟨hfresh, hdepth, fun later latest =>
    (history_follows (.ofConfig .default) tour hfresh).2.1 [later] [latest] (Nat.le_of_eq hdepth.symm) rfl⟩

end Traffic

end Corkboard
