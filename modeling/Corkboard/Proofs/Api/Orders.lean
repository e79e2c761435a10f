/-
What changes the order of a card.

An order changes in two ways only: a content request makes its edit of it, or an undo or a redo takes edits back or
makes them again. `order_moment` says so of one event; `orderOf_moment` of the events between two moments of a run, none
of which is a step of such a request.
-/
import Corkboard.Proofs.Api.Moments
import Corkboard.Proofs.Desk.Compositions
import Corkboard.Proofs.Desk.Retries

namespace Corkboard

namespace Phase

/-- the call replaces a block and leaves orders alone -/
def Rewrites : Phase → Prop
  | fetching _ _ _ | replacing _ _ | done _ => True
  | _ => False

variable {h h' : History} {w : Ambient} {card : Uuid} {p p' : Phase}

theorem Rewrites.acts (hp : p.Rewrites) (ha : Task.Acts w card h p h' p') : p'.Rewrites := by
  cases ha with
  | quiet hn => cases hn <;> trivial
  | replaced _ => trivial
  | edited _ _ => exact hp.elim

end Phase

theorem OrderEdit.card?_result (e : OrderEdit) (s : Store) (c : Card) (order : List Uuid) (id : Uuid) :
    (e.result s c order).card? id = if id = c.id then some { c with contentOrder := order } else s.card? id := by
  cases e <;> simp only [result, Store.card?_putCard, Store.card?_putBlock, Store.card?_dropBlock]

/-- a call changes the order of its own card, and in one phase only -/
theorem Task.Acts.order {h h' : History} {w : Ambient} {card x : Uuid} {p p' : Phase} (ha : Task.Acts w card h p h' p')
    (ho : p.Of card) (hne : h'.orderOf x ≠ h.orderOf x) : x = card ∧ p.writesOrder := by
  cases ha with
  | quiet _ => exact absurd rfl hne
  | replaced hc =>
    refine absurd ?_ hne
    simp only [History.orderOf, History.store_of_commit_updateBlock hc, Store.card?_putBlock]
  | @edited edit sequel attempt read group order _ hg hc =>
    obtain ⟨c, hcard, -, -, hstore⟩ := (OrderEdit.written_of_commit hg hc).effect
    refine ⟨?_, rfl⟩
    by_contra hx
    refine hne ?_
    have hother : x ≠ c.id := by rwa [Store.id_of_card? hcard, ho.2]
    simp only [History.orderOf, hstore, OrderEdit.card?_result, if_neg hother]

namespace RequestPhase

/-- a step of the history taken back, or made again -/
inductive Retraces : RequestPhase → RequestPhase → Prop
  | undo {description} : Retraces (.start .undo) (.done (.history description))
  | redo {description} : Retraces (.start .redo) (.done (.history description))

variable {h h' : History} {m : Ambient} {c : Command} {p p' : RequestPhase} {card : Uuid}

/-- **One step of a request** changes an order by a step of the history or by an edit. -/
theorem Acts.order (ha : Acts m h p h' p') (ho : p.Of c) (hfresh : h.store.card? m.id = none)
    (hne : h'.orderOf card ≠ h.orderOf card) :
    Retraces p p' ∨ ∃ t purpose, p = .call t purpose ∧ t.handle.card = card ∧ t.phase.writesOrder := by
  cases ha with
  | calm _ => exact absurd rfl hne
  | @called t purpose _ _ hacts =>
    obtain ⟨hcard, hwrites⟩ := hacts.order ho.2 hne
    exact .inr ⟨t, purpose, rfl, hcard.symm, hwrites⟩
  | undone _ => exact .inl .undo
  | redone _ => exact .inl .redo
  | @created title rootId =>
    -- the new card has no order, and none was there before
    refine absurd ?_ hne
    simp only [History.orderOf, History.insertCard, Store.card?_putCard, Card.fresh]
    split
    · rename_i hid
      rw [hid, hfresh]
      rfl
    · rfl
  | @wrote x templateId v _ hc =>
    refine absurd ?_ hne
    obtain ⟨t, inverses, hg, rfl⟩ := (History.commit_eq_ok_iff (by simp)).1 hc
    obtain ⟨back, hm, -⟩ := applyGroup_singleton_eq_ok_iff.1 hg
    obtain ⟨y, hy, rfl, -⟩ := Change.apply_setProperty.1 (Mutation.apply_eq_ok_iff.1 hm).1
    simp only [History.orderOf, Store.card?_putCard]
    split
    · rename_i hid
      rw [hid, Store.id_of_card? hy, hy]
      rfl
    · rfl

end RequestPhase

/-- the request may change the order of the card -/
def Command.Reorders (card : Uuid) : Command → Prop
  | undo | redo => True
  | addContent c _ _ | compose c _ _ | deleteContent c _ | moveContent c _ _ => c = card
  | _ => False

namespace RequestPhase

/-- only a request that may change the order of its card makes an edit -/
def Edits (c : Command) : RequestPhase → Prop
  | start c' => c' = c
  | call t _ => c.Reorders t.handle.card ∨ t.phase.Rewrites
  | _ => True

variable {h h' : History} {m : Ambient} {c : Command} {p p' : RequestPhase}

theorem Edits.acts (he : p.Edits c) (ha : Acts m h p h' p') : p'.Edits c := by
  cases ha with
  | calm hc =>
    cases hc with
    | @opened c' card purpose k r name hcall _ =>
      obtain rfl : c' = c := he
      cases c' <;> cases hcall <;> first | exact .inl rfl | exact .inr trivial
    | began _ hr => cases p' <;> trivial
    | went _ hr => cases p' <;> first | trivial | (rcases hr with hr | hr <;> cases hr)
    | ended => trivial
    | _ => trivial
  | @called t purpose _ q hacts =>
    unfold afterCall
    split
    · trivial
    · exact he.imp_right fun hr => hr.acts hacts
  | _ => trivial

end RequestPhase

namespace Traffic

variable {w : AppWorld} {es : List Event} {e : Event} {card : Uuid} {n : Nat}

/-- a request that takes a step of the history back or makes it again, or that makes an edit of the order of a card -/
def Writer (w : AppWorld) (t : Traffic) (card : Uuid) (e : Event) : Prop :=
  ∃ place m q, e = .step place m ∧ t.requests[place]? = some q ∧
    (RequestPhase.Retraces q.phase (q.phase.step w m place t.app).2 ∨
      ∃ task purpose, q.phase = .call task purpose ∧ task.handle.card = card ∧ task.phase.writesOrder)

theorem Kept.card?_eq_none {t : Traffic} {L : Lineage} {used : List Uuid} (hk : Kept used L t) {id : Uuid}
    (hid : id ∉ used) :
    t.app.store.card? id = none := by
  cases hc : t.app.store.card? id with
  | none => rfl
  | some c =>
    have hgiven := hk.keeps.present_holds.cards hc
    rw [hk.within.cards hid] at hgiven
    cases hgiven

/-- the identifier of an event was not supplied before -/
theorem fresh_at (hf : Fresh es) (he : es[n]? = some e) : ∀ id ∈ e.id?, id ∉ (es.take n).filterMap Event.id? := by
  intro id hid hmem
  have hsplit : es = es.take n ++ e :: es.drop (n + 1) := by
    obtain ⟨hn, rfl⟩ := List.getElem?_eq_some_iff.1 he
    rw [List.getElem_cons_drop, List.take_append_drop]
  rw [hsplit, Fresh, List.filterMap_append, List.nodup_append] at hf
  exact hf.2.2 id hmem id (by rw [ids_cons]; exact List.mem_append_left _ (Option.mem_toList.2 hid)) rfl

/-- **What changes an order**: one of the two ways, at every moment of every run. -/
theorem order_moment (w : AppWorld) (hf : Fresh es) (he : es[n]? = some e)
    (hne : (moment w es (n + 1)).history.orderOf card ≠ (moment w es n).history.orderOf card) :
    (moment w es n).Writer w card e := by
  obtain ⟨used, L, hk, hused⟩ := kept_new.run_ids (w := w) (es.take n) (hf.take n) (by simp)
  rw [moment_succ w he] at hne
  cases e with
  | arrive c => exact absurd rfl hne
  | step place m =>
    cases hq : (moment w es n).requests[place]? with
    | none => exact absurd (by simp only [take, hq]) hne
    | some q =>
      have hid : m.id ∉ used := fun hmem => by
        rcases hused m.id hmem with hmem | hmem
        · cases hmem
        · exact fresh_at hf he m.id rfl hmem
      have hfresh : (moment w es n).app.store.card? m.id = none := hk.card?_eq_none hid
      have hacts := RequestPhase.step_acts w m place (moment w es n).app q.phase
      rw [history, (take_step w hq m).1] at hne
      exact ⟨place, m, q, rfl, hq, hacts.order (own_run w _ q (List.mem_of_getElem? hq)) hfresh hne⟩

/-- only requests that may change the order of a card do -/
theorem reorders_of_writer (w : AppWorld) (es : List Event) (hw : (new.run w es).Writer w card e) :
    ∃ place m q, e = .step place m ∧ (new.run w es).requests[place]? = some q ∧ q.command.Reorders card := by
  obtain ⟨place, m, q, rfl, hq, hwrites⟩ := hw
  refine ⟨place, m, q, rfl, hq, ?_⟩
  have hedits : q.phase.Edits q.command := (run_keeps (A := fun _ => True) (I := RequestPhase.Edits) (w := w) trivial
    (fun c => rfl) (fun m place a c p _ he => ⟨trivial, he.acts (RequestPhase.step_acts w m place a p)⟩) es).2 q
    (List.mem_of_getElem? hq)
  obtain ⟨c, p⟩ := q
  rcases hwrites with hr | ⟨task, purpose, rfl, rfl, hwrites⟩
  · generalize hnext : (p.step w m place (new.run w es).app).2 = p' at hr
    cases hr <;> cases hedits <;> trivial
  · rcases hedits with hr | hr
    · exact hr
    · obtain ⟨handle, name, phase⟩ := task
      cases phase <;> first | exact hr.elim | cases hwrites

/-- the order of a card stays while no request takes a step that may change it -/
theorem orderOf_moment (w : AppWorld) (hf : Fresh es) {i j : Nat} (hij : i ≤ j) (hj : j ≤ es.length)
    (hquiet : ∀ n other m r, i ≤ n → n < j → es[n]? = some (.step other m) →
      (moment w es n).requests[other]? = some r → ¬ r.command.Reorders card) :
    (moment w es j).history.orderOf card = (moment w es i).history.orderOf card := by
  induction hij with
  | refl => rfl
  | @step j hij ih =>
    have hrest := ih (Nat.le_of_succ_le hj) fun n other m r hin hnj => hquiet n other m r hin (Nat.lt_succ_of_lt hnj)
    rw [← hrest]
    by_contra hne
    have he : es[j]? = some es[j] := List.getElem?_eq_getElem hj
    obtain ⟨other, m, r, hstep, hr, hreorders⟩ := reorders_of_writer w _ (order_moment w hf he hne)
    exact hquiet j other m r hij (Nat.lt_succ_self j) (hstep ▸ he) hr hreorders

end Traffic

end Corkboard
