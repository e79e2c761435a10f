/-
A composition with nothing between its steps.

A composition saves the drafts of its lines one after the other, five steps for each: the card is read and the block
made, the lock taken, the card read again, the group written, the block noted.

- `compose_alone`: made and taken through alone on a card whose order is consistent, a composition succeeds. It saves
  what each line gives by itself, and its blocks stand as one run in the order, which is otherwise as it was.

`run_saved` is the five steps of one block, `run_composing` the induction over the drafts.
-/
import Corkboard.Proofs.Desk.Alone
import Corkboard.Proofs.Desk.Compositions
import Corkboard.Proofs.Editor.Lines

namespace Corkboard

/-! ## A run of entries -/

section Orders

variable {order ids : List Uuid} {index bound : Nat}

/-- the next entry of a run that was put in at an index goes to its end -/
theorem insertAt_run (order ids : List Uuid) (index : Nat) (id : Uuid) :
    insertAt (order.take index ++ ids ++ order.drop index) (index + ids.length) id =
      order.take index ++ (ids ++ [id]) ++ order.drop index := by
  rcases Nat.le_total index order.length with hle | hle
  · have hlength : (order.take index ++ ids).length = index + ids.length := by simp [hle]
    rw [insertAt, List.take_left' hlength, List.drop_left' hlength]
    simp
  · rw [List.take_of_length_le hle, List.drop_of_length_le hle, List.append_nil, List.append_nil, insertAt,
      List.take_of_length_le (by simp [hle]), List.drop_of_length_le (by simp [hle]), List.append_assoc]

/-- an index counts up to the length of the order -/
theorem insertAt_min {id : Uuid} (hbound : order.length ≤ bound) :
    insertAt order (min index bound) id = insertAt order index id := by
  rw [insertAt_eq_insertIdx, insertAt_eq_insertIdx, Nat.min_assoc, Nat.min_eq_right hbound]

/-- entries put in one after the other at places that are counted from an index, but not beyond a bound -/
def insertCounting (bound index : Nat) (order : List Uuid) (ids : List Uuid) : List Uuid :=
  (ids.zipIdx index).foldl (fun o e => insertAt o (min e.2 bound) e.1) order

theorem insertCounting_run (index : Nat) (before : List Uuid)
    (hbound : order.length + (before.length + ids.length) ≤ bound) :
    insertCounting bound (index + before.length) (order.take index ++ before ++ order.drop index) ids =
      order.take index ++ (before ++ ids) ++ order.drop index := by
  induction ids generalizing before with
  | nil => simp [insertCounting]
  | cons id ids ih =>
    rw [List.length_cons] at hbound
    have hshorter : (order.take index ++ before ++ order.drop index).length ≤ bound := by
      simp only [List.length_append, List.length_take, List.length_drop]
      omega
    have hrest := ih (before ++ [id]) (by rw [List.length_append, List.length_singleton]; omega)
    rw [List.length_append, List.length_singleton, ← insertAt_run, List.append_assoc before [id] ids] at hrest
    rw [insertCounting, List.zipIdx_cons, List.foldl_cons, insertAt_min hshorter]
    exact hrest

/-- a bound that the order never reaches makes no difference -/
theorem insertCounting_eq (hbound : order.length + ids.length ≤ bound) :
    insertCounting bound index order ids = order.take index ++ ids ++ order.drop index := by
  simpa using insertCounting_run index [] (by simpa using hbound)

end Orders

/-! ## One block -/

namespace Task

variable {d : Desk History} {w : Ambient} {handle : Handle} {name : Nat} {c : Card}

theorem step_drafting {kind : String} {value : Json} {index : Nat} {sequel : Sequel}
    (hc : d.doc.store.card? handle.card = some c) :
    step .plain w d ⟨handle, name, .drafting kind value index sequel⟩ =
      (d, ⟨handle, name,
        .waiting (.insert ((Block.fresh w.id w.now c.rootId kind value).attachTo c) index) sequel⟩) := by
  simp only [step, readCard, Document.plain, hc]
  rfl

theorem step_waiting {edit : OrderEdit} {sequel : Sequel} (hfree : d.holder handle = none) :
    step .plain w d ⟨handle, name, .waiting edit sequel⟩ =
      (d.setHolder handle (some name), ⟨handle, name, .reading edit sequel 0⟩) := by
  simp only [step, hfree, if_true]
  rfl

theorem step_reading {edit : OrderEdit} {sequel : Sequel} {attempt : Nat} {g : List Mutation × List Uuid}
    (hc : d.doc.store.card? handle.card = some c) (hg : edit.group c = .ok g) :
    step .plain w d ⟨handle, name, .reading edit sequel attempt⟩ =
      (d, ⟨handle, name, .writing edit sequel attempt c⟩) := by
  simp only [step, readCard, Document.plain, hc, hg]
  rfl

theorem step_writing {edit : OrderEdit} {sequel : Sequel} {attempt : Nat} {group : List Mutation} {order : List Uuid}
    {h' : History} (hg : edit.group c = .ok (group, order)) (hcommit : d.doc.commit w.now group = .ok h') :
    step .plain w d ⟨handle, name, .writing edit sequel attempt c⟩ =
      (({ d with doc := h' } : Desk History).setHolder handle none, ⟨handle, name, afterEdit edit sequel order⟩) := by
  simp only [step, Document.plain, Document.commit, hg, hcommit]
  rfl

end Task

/-- an insertion on the card as it stands is accepted, if the order is consistent and the block is a new one of the
card -/
theorem OrderEdit.commit_insert {h : History} {c : Card} {b : Block} (index : Nat) (now : Int)
    (hc : h.store.card? c.id = some c) (hcons : h.store.Consistent c.id c.contentOrder) (hp : b.parentId = c.id)
    (hnew : h.store.block? b.id = none) :
    ∃ group h', (OrderEdit.insert b index).group c = .ok (group, insertAt c.contentOrder index b.id) ∧
      h.commit now group = .ok h' := by
  have hafter : (h.store.putBlock b).Consistent c.id (insertAt c.contentOrder index b.id) := by
    refine ⟨nodup_insertAt.2 ⟨fun hmem => ?_, hcons.nodup⟩, fun id hid => ?_⟩
    · obtain ⟨x, hx, -⟩ := hcons.owned b.id hmem
      rw [hnew] at hx; cases hx
    · rw [Store.block?_putBlock]
      split
      · exact ⟨b, rfl, hp⟩
      · rename_i hne
        exact hcons.owned id ((mem_insertAt.1 hid).resolve_left hne)
  have hblock : Mutation.apply now h.store ⟨.insertBlock b, "add content"⟩ =
      .ok (h.store.putBlock b, ⟨.deleteBlock b, "add content"⟩) :=
    Mutation.apply_eq_ok_iff.2 ⟨Change.apply_insertBlock.2 ⟨hnew, by simp [hp, hc], rfl, rfl⟩, rfl⟩
  have horder : Mutation.apply now (h.store.putBlock b)
      ⟨.changeOrder c.id c.contentOrder (insertAt c.contentOrder index b.id), "add content"⟩ =
      .ok ((h.store.putBlock b).putCard { c with contentOrder := insertAt c.contentOrder index b.id },
        ⟨.changeOrder c.id (insertAt c.contentOrder index b.id) c.contentOrder, "add content"⟩) :=
    Mutation.apply_eq_ok_iff.2 ⟨Change.apply_changeOrder.2 ⟨c, hc, rfl, hafter, rfl, rfl⟩, rfl⟩
  have happ := applyGroup_cons_eq_ok_iff.2 ⟨_, _, _, hblock, applyGroup_singleton_eq_ok_iff.2 ⟨_, horder, rfl⟩, rfl⟩
  exact ⟨_, _, group_eq_ok_iff.2 ⟨rfl, rfl⟩, (History.commit_eq_ok_iff (by simp [changes])).2 ⟨_, _, happ, rfl⟩⟩

theorem OrderEdit.Written.block?_insert {b : Block} {index : Nat} {card : Uuid} {order : List Uuid} {h h' : History}
    (hw : (OrderEdit.insert b index).Written card order h h') (id : Uuid) :
    h'.store.block? id = if id = b.id then some b else h.store.block? id := by
  obtain ⟨c, -, -, -, hstore⟩ := hw.effect
  rw [hstore, OrderEdit.result, Store.block?_putCard, Store.block?_putBlock]

/-! ## What a history gained -/

/-- a history in which blocks were put into one card, its order ending as given -/
structure History.Gained (card : Uuid) (order : List Uuid) (bs : List Block) (h h' : History) : Prop where
  reordered : ∃ c, h.store.card? card = some c ∧ h'.store.card? card = some { c with contentOrder := order }
  others : ∀ id, id ≠ card → h'.store.card? id = h.store.card? id
  consistent : h'.store.Consistent card order
  fresh : ∀ b ∈ bs, h.store.block? b.id = none
  stored : ∀ b ∈ bs, h'.store.block? b.id = some b
  kept : ∀ id, id ∉ bs.map Block.id → h'.store.block? id = h.store.block? id
  pushed : ∃ steps, steps.length = bs.length ∧ h'.undos = steps ++ h.undos

namespace History.Gained

variable {card : Uuid} {order order' : List Uuid} {bs : List Block} {b : Block} {index : Nat} {h h' h'' : History}

theorem refl {c : Card} (hc : h.store.card? card = some c) (hcons : h.store.Consistent card c.contentOrder) :
    h.Gained card c.contentOrder [] h where
  reordered := ⟨c, hc, hc⟩
  others _ _ := rfl
  consistent := hcons
  fresh := by simp
  stored := by simp
  kept _ _ := rfl
  pushed := ⟨[], rfl, rfl⟩

theorem orderOf (hg : h.Gained card order bs h') : h'.orderOf card = order := by
  obtain ⟨c, -, hc⟩ := hg.reordered
  simp [History.orderOf, hc]

theorem snoc (hg : h.Gained card order bs h') (hw : (OrderEdit.insert b index).Written card order' h' h'') :
    h.Gained card order' (bs ++ [b]) h'' := by
  obtain ⟨c, hc, hc'⟩ := hg.reordered
  obtain ⟨c', hread, -, hcards⟩ := hw.card?_insert
  cases hc'.symm.trans hread
  have hnew : h'.store.block? b.id = none := by
    obtain ⟨-, -, -, hfits, -⟩ := hw.effect
    exact hfits.1
  have hnotin : b.id ∉ bs.map Block.id := by
    intro hmem
    obtain ⟨b', hb', heq⟩ := List.mem_map.1 hmem
    have hstored := hg.stored b' hb'
    rw [heq, hnew] at hstored
    cases hstored
  refine ⟨⟨c, hc, by rw [hcards, if_pos rfl]⟩, fun id hne => ?_, hw.consistent, fun x hx => ?_, fun x hx => ?_,
    fun id hmem => ?_, ?_⟩
  · rw [hcards, if_neg hne, hg.others id hne]
  · rcases List.mem_append.1 hx with hx | hx
    · exact hg.fresh x hx
    · obtain rfl := List.mem_singleton.1 hx
      rw [← hg.kept _ hnotin, hnew]
  · rcases List.mem_append.1 hx with hx | hx
    · rw [hw.block?_insert, if_neg, hg.stored x hx]
      exact fun heq => hnotin (heq ▸ List.mem_map_of_mem hx)
    · obtain rfl := List.mem_singleton.1 hx
      rw [hw.block?_insert, if_pos rfl]
  · rw [List.map_append, List.mem_append, not_or] at hmem
    rw [hw.block?_insert, if_neg (by simpa using hmem.2), hg.kept id hmem.1]
  · obtain ⟨steps, hlength, hundos⟩ := hg.pushed
    obtain ⟨step, hpush⟩ := hw.pushed
    exact ⟨step :: steps, by simp [hlength], by rw [hpush, hundos, List.cons_append]⟩

end History.Gained

/-! ## All steps in a row -/

namespace Floor

variable (r : ContentRegistry) {desk : Desk History} (es : List Errand)

/-- the five steps that put one draft into a card as a new block -/
theorem run_saved (e : Errand) {c : Card} {kind : String} {value : Json} {place : Nat} {sequel : Sequel}
    (w₁ w₂ w₃ w₄ w₅ : Ambient) (he : e.task.phase = .drafting kind value place sequel)
    (hc : desk.doc.store.card? e.task.handle.card = some c)
    (hcons : desk.doc.store.Consistent e.task.handle.card c.contentOrder) (hfree : desk.holder e.task.handle = none)
    (hnew : desk.doc.store.block? w₁.id = none) :
    ∃ b desk' e', run r ⟨desk, es ++ [e]⟩ ([w₁, w₂, w₃, w₄, w₅].map (.step es.length)) = ⟨desk', es ++ [e']⟩ ∧
      e'.task = { e.task with phase := .afterBlock b sequel } ∧ desk'.holder e.task.handle = none ∧
      b.id = w₁.id ∧ b.kind = kind ∧ b.value = value ∧
      (OrderEdit.insert b place).Written e.task.handle.card (insertAt c.contentOrder place b.id) desk.doc
        desk'.doc := by
  obtain ⟨call, ⟨handle, name, phase⟩, turns⟩ := e
  cases he
  have hid : c.id = handle.card := Store.id_of_card? hc
  let b := (Block.fresh w₁.id w₁.now c.rootId kind value).attachTo c
  have hparent : b.parentId = c.id := rfl
  obtain ⟨group, h', hg, hcommit⟩ := OrderEdit.commit_insert place w₄.now (hid ▸ hc) (hid ▸ hcons) hparent hnew
  let locked := desk.setHolder handle (some name)
  let written := ({ locked with doc := h' } : Desk History).setHolder handle none
  have hdraft : Task.step .plain w₁ desk ⟨handle, name, .drafting kind value place sequel⟩ = _ := Task.step_drafting hc
  have hwait : Task.step .plain w₂ desk ⟨handle, name, .waiting (.insert b place) sequel⟩ = _ := Task.step_waiting hfree
  have hread : Task.step .plain w₃ locked ⟨handle, name, .reading (.insert b place) sequel 0⟩ = _ :=
    Task.step_reading hc hg
  have hwrite : Task.step .plain w₄ locked ⟨handle, name, .writing (.insert b place) sequel 0 c⟩ =
      (written, ⟨handle, name, .noting b sequel⟩) := Task.step_writing hg hcommit
  have hnote : Task.step .plain w₅ written ⟨handle, name, .noting b sequel⟩ =
      (written.setNewest handle (some b.id), ⟨handle, name, .afterBlock b sequel⟩) := rfl
  have hrun := run_step_last r es call turns hdraft ([w₂, w₃, w₄, w₅].map (.step es.length))
  rw [List.map_cons, run_step_last r es call _ hwait, List.map_cons, run_step_last r es call _ hread, List.map_cons,
    run_step_last r es call _ hwrite, List.map_cons, run_step_last r es call _ hnote] at hrun
  exact ⟨b, _, _, hrun, rfl, if_pos rfl, rfl, rfl, rfl, hid ▸ OrderEdit.written_of_commit hg hcommit⟩

/-- the drafts that are left, saved one after the other -/
theorem run_composing {h : History} (e : Errand) {index : Nat} {order : List Uuid} {saved : List Block}
    (drafts : List Committed) (ws : List Ambient) (he : e.task.phase = .composing saved index drafts)
    (hlength : 5 * drafts.length ≤ ws.length) (hids : (ws.map Ambient.id).Nodup)
    (hfree : desk.holder e.task.handle = none) (hfresh : ∀ w ∈ ws, desk.doc.store.block? w.id = none)
    (hgained : h.Gained e.task.handle.card (order.take index ++ saved.map Block.id ++ order.drop index) saved
      desk.doc) :
    ∃ bs desk' e', run r ⟨desk, es ++ [e]⟩ (ws.map (.step es.length)) = ⟨desk', es ++ [e']⟩ ∧
      e'.task.phase = .done (.ok (.blocks bs)) ∧ bs.map (fun b => (b.kind, b.value)) =
        saved.map (fun b => (b.kind, b.value)) ++ drafts.map (fun d => (d.tag, d.value)) ∧
      h.Gained e.task.handle.card (order.take index ++ bs.map Block.id ++ order.drop index) bs desk'.doc := by
  induction drafts generalizing desk saved e ws with
  | nil =>
    obtain ⟨e', hrun, htask⟩ := run_steps_done r desk es e he ws
    exact ⟨saved, desk, e', hrun, htask ▸ he, by simp, hgained⟩
  | cons d drafts ih =>
    -- five of the steps save the first draft
    obtain _ | ⟨w₁, _ | ⟨w₂, _ | ⟨w₃, _ | ⟨w₄, _ | ⟨w₅, ws⟩⟩⟩⟩⟩ := ws
    iterate 5 (simp only [List.length_cons, List.length_nil] at hlength; omega)
    obtain ⟨c, -, hc⟩ := hgained.reordered
    obtain ⟨b, desk', e', hrun, htask, hfree', hb, hkind, hvalue, hwritten⟩ :=
      run_saved r es e w₁ w₂ w₃ w₄ w₅ he hc hgained.consistent hfree (hfresh w₁ List.mem_cons_self)
    have hgained' := hgained.snoc hwritten
    rw [show index + saved.length = index + (saved.map Block.id).length by simp, insertAt_run, ← List.map_singleton,
      ← List.map_append] at hgained'
    have hhandle : e'.task.handle = e.task.handle := by rw [htask]
    obtain ⟨hw₁, hids⟩ := List.nodup_cons.1 hids
    have hlater : ∀ w ∈ ws, w ∈ w₂ :: w₃ :: w₄ :: w₅ :: ws := fun w hw => by simp [hw]
    have hfresh' : ∀ w ∈ ws, desk'.doc.store.block? w.id = none := fun w hw => by
      have hne : w.id ≠ b.id := fun heq => hw₁ (hb ▸ heq ▸ List.mem_map_of_mem (hlater w hw))
      rw [hwritten.block?_insert, if_neg hne, hfresh w (List.mem_cons_of_mem _ (hlater w hw))]
    obtain ⟨bs, desk'', e'', hrest, hdone, hdrafts, hall⟩ := ih e' ws (by rw [htask]; rfl)
      (by simp only [List.length_cons] at hlength; omega) hids.of_cons.of_cons.of_cons.of_cons (hhandle ▸ hfree')
      hfresh' (hhandle ▸ hgained')
    refine ⟨bs, desk'', e'', ?_, hdone, by simp [hdrafts, hkind, hvalue], hhandle ▸ hall⟩
    have hsplit : (w₁ :: w₂ :: w₃ :: w₄ :: w₅ :: ws).map (Move.step es.length) =
        [w₁, w₂, w₃, w₄, w₅].map (Move.step es.length) ++ ws.map (Move.step es.length) := rfl
    rw [hsplit, run, List.foldl_append]
    exact (congrArg (fun f => run r f (ws.map (.step es.length))) hrun).trans hrest

/-- **A composition by itself.** On a card with a consistent order a composition succeeds, whatever its lines are. Each
line gives what a new editor makes of it alone; the blocks come in as one run at the index, at the end if the index is
beyond it, and are all that changes. A counter for the places that stops at a bound is as good as one that does not, if
the order never gets there. -/
theorem compose_alone (f : Floor) (handle : Handle) (lines : List String) (index : Nat) (ws : List Ambient) (c : Card)
    (hc : f.history.store.card? handle.card = some c)
    (hcheck : f.history.store.checkOrder handle.card = .ok ()) (hfree : f.desk.holder handle = none)
    (hsteps : 5 * lines.length ≤ ws.length) (hids : (ws.map Ambient.id).Nodup)
    (hfresh : ∀ w ∈ ws, f.history.store.block? w.id = none) :
    let f' := f.run r (.call handle (.compose lines index) :: ws.map (.step f.errands.length))
    let i := min index c.contentOrder.length
    ∃ e bs, f'.errands = f.errands ++ [e] ∧ e.task.phase = .done (.ok (.blocks bs)) ∧
      bs.map (fun b => (b.kind, b.value)) = (lines.filterMap (Editor.draftOf r)).map (fun d => (d.tag, d.value)) ∧
      f.history.Gained handle.card (c.contentOrder.take i ++ bs.map Block.id ++ c.contentOrder.drop i) bs f'.history ∧
      ∀ bound, c.contentOrder.length + bs.length ≤ bound →
        f'.history.orderOf handle.card = insertCounting bound index c.contentOrder (bs.map Block.id) := by
  intro f' i
  have hcons : f.history.store.Consistent handle.card c.contentOrder := by
    obtain ⟨c', hc', hcons⟩ := (Store.checkOrder_eq_ok_iff _ _).1 hcheck
    cases hc.symm.trans hc'
    exact hcons
  have hlength : 5 * (lines.filterMap (Editor.draftOf r)).length ≤ ws.length :=
    Nat.le_trans (Nat.mul_le_mul_left 5 (List.length_filterMap_le _ _)) hsteps
  have hnothing : f.history.Gained handle.card
      (c.contentOrder.take index ++ [].map Block.id ++ c.contentOrder.drop index) [] f.history := by
    simpa using History.Gained.refl hc hcons
  have hmade : Phase.start r (.compose lines index) = .composing [] index (lines.filterMap (Editor.draftOf r)) := by
    rw [Phase.start, Editor.enterLines_eq rfl]
  obtain ⟨bs, desk, e, hrun, hdone, hdrafts, hgained⟩ := run_composing r f.errands
    ⟨.compose lines index, ⟨handle, f.errands.length, .start r (.compose lines index)⟩, []⟩ _ ws hmade hlength hids
    hfree hfresh hnothing
  have hafter : f' = ⟨desk, f.errands ++ [e]⟩ := hrun
  rw [hafter]
  refine ⟨e, bs, rfl, hdone, hdrafts, ?_, fun bound hbound => ?_⟩
  · rw [← List.take_eq_take_min, ← List.drop_eq_drop_min]
    exact hgained
  · rw [insertCounting_eq (by simpa using hbound)]
    exact hgained.orderOf

/-- a command that nobody knows and a blank line, between two other lines -/
def notes : List String := ["[ ] milk", "/nope", " ", "hi"]

def supplies : List Ambient := (List.range 20).map fun n => ⟨30, ⟨.ofNat 128 (20 + n)⟩, .nil⟩

theorem notes_in_front :
    let f' := (new History.OneBlock.added).run (.builtin .firstRegistered)
      (.call ⟨⟨1⟩, 0⟩ (.compose notes 0) :: supplies.map (.step 0))
    f'.history.orderOf ⟨1⟩ = [⟨20⟩, ⟨25⟩, ⟨10⟩] ∧
    ∃ e bs, f'.errands = [e] ∧ e.task.phase = .done (.ok (.blocks bs)) ∧
      bs.map (fun b => (b.kind, b.value)) = [("checkbox", Payload.ofChecked false "milk"), ("text", .string "hi")] ∧
      History.OneBlock.added.Gained ⟨1⟩ (bs.map Block.id ++ [⟨10⟩]) bs f'.history := by
  have hc : (new History.OneBlock.added).history.store.card? ⟨1⟩ =
    some { History.OneBlock.card with contentOrder := [⟨10⟩] } := rfl
  obtain ⟨e, bs, herrands, hdone, hdrafts, hgained, -⟩ := compose_alone (.builtin .firstRegistered)
    (new History.OneBlock.added) ⟨⟨1⟩, 0⟩ notes 0 supplies _ hc rfl rfl (by decide) (by decide) (by decide)
  exact ⟨rfl, e, bs, herrands, hdone, hdrafts, hgained⟩

end Floor

end Corkboard
