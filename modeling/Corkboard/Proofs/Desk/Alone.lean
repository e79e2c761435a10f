/-
Calls that rewrite a block, with nothing between their steps.

Two calls rewrite a block: another payload for it, and a draft saved into it, which brings a kind as well
(`Call.rewrite?`). Both read the block in one step and write it in the next.

- `complete_rewrite`: made and taken through alone, such a call puts its payload, and its kind if it brings one, into
  the block as it stands. It succeeds, and is one step of the history.
- `completeAll_rewrites`: so do several, one after the other.
-/
import Corkboard.Proofs.Desk.Step

namespace Corkboard

/-! ## Rewrites -/

/-- what a call puts into a block: a payload, and a kind if it brings one -/
structure Rewrite where
  id : Uuid
  kind : Option String
  value : Json

/-- what the call rewrites, if it is made to rewrite a block -/
def Call.rewrite? : Call → Option Rewrite
  | updateValue id value => some ⟨id, none, value⟩
  | save ⟨some id, tag, value⟩ _ => some ⟨id, some tag, value⟩
  | _ => none

namespace Block

def rewritten (b : Block) (ρ : Rewrite) : Block := { b with kind := ρ.kind.getD b.kind, value := ρ.value }

/-- the block after a call, as far as the call rewrites it -/
def rewrittenBy (b : Block) (c : Call) : Block := c.rewrite?.elim b b.rewritten

/-- the block after calls in turn -/
def rewrittenByAll (b : Block) (cs : List Call) : Block := cs.foldl rewrittenBy b

variable {b b' : Block}

theorem id_rewrittenBy (b : Block) (c : Call) : (b.rewrittenBy c).id = b.id := by
  unfold rewrittenBy
  cases c.rewrite? <;> rfl

theorem id_rewrittenByAll (b : Block) (cs : List Call) : (b.rewrittenByAll cs).id = b.id := by
  induction cs generalizing b with
  | nil => rfl
  | cons c cs ih => exact (ih _).trans (b.id_rewrittenBy c)

theorem unstamped_rewrittenBy (h : b'.unstamped = b.unstamped) (c : Call) :
    (b'.rewrittenBy c).unstamped = (b.rewrittenBy c).unstamped := by
  unfold rewrittenBy
  cases c.rewrite? with
  | none => exact h
  | some ρ => simp_all [unstamped, rewritten]

/-- the time of the last change is of no account to the calls -/
theorem unstamped_rewrittenByAll (h : b'.unstamped = b.unstamped) (cs : List Call) :
    (b'.rewrittenByAll cs).unstamped = (b.rewrittenByAll cs).unstamped := by
  induction cs generalizing b b' with
  | nil => exact h
  | cons c cs ih => exact ih (unstamped_rewrittenBy h c)

end Block

theorem Phase.start_rewrite (r : ContentRegistry) {c : Call} {ρ : Rewrite} (hc : c.rewrite? = some ρ) :
    Phase.start r c = .fetching ρ.id ρ.kind ρ.value := by
  cases c with
  | updateValue id value => cases hc; rfl
  | save draft index =>
    obtain ⟨_ | id, tag, value⟩ := draft
    · cases hc
    · cases hc; rfl
  | add tag index => cases hc
  | compose lines index => cases hc
  | delete id => cases hc
  | move id index => cases hc

/-- the store after the block of an edit was written -/
theorem History.store_of_commit_updateBlock {now : Int} {h h' : History} {new old : Block} {description : String}
    (hc : h.commit now [⟨.updateBlock new old, description⟩] = .ok h') :
    h'.store = h.store.putBlock { new with updatedAt := now } := by
  obtain ⟨t, inverses, happ, rfl⟩ := (History.commit_eq_ok_iff (by simp)).1 hc
  obtain ⟨back, hm, -⟩ := applyGroup_singleton_eq_ok_iff.1 happ
  obtain ⟨x, -, rfl, -⟩ := Change.apply_updateBlock.1 (Mutation.apply_eq_ok_iff.1 hm).1
  rfl

/-! ## One step -/

namespace Task

variable {d : Desk History} {w : Ambient} {handle : Handle} {name : Nat} {b : Block}

theorem step_fetching {ρ : Rewrite} (hb : d.doc.store.block? ρ.id = some b) (hp : b.parentId = handle.card) :
    step .plain w d ⟨handle, name, .fetching ρ.id ρ.kind ρ.value⟩ =
      (d, ⟨handle, name, .replacing (b.rewritten ρ) b⟩) := by
  simp only [step]
  rcases readOwned_cases (D := .plain) (d := d) (t := ⟨handle, name, .fetching ρ.id ρ.kind ρ.value⟩) ρ.id with
    ⟨b', hread, hb', -⟩ | ⟨-, hnone⟩
  · cases hb.symm.trans hb'
    rw [hread]
    rfl
  · exact absurd hp (hnone b hb)

/-- a block that is there is written, as one step of the history that can put back what was there -/
theorem step_replacing {new old x : Block} (hx : d.doc.store.block? new.id = some x) :
    step .plain w d ⟨handle, name, .replacing new old⟩ =
      ({ d with doc := ⟨d.doc.store.putBlock { new with updatedAt := w.now },
          ⟨"edit content", [⟨.updateBlock x { new with updatedAt := w.now }, "edit content"⟩]⟩ :: d.doc.undos, []⟩ },
        ⟨handle, name, .done (.ok (.block new))⟩) := by
  have hwrite : Mutation.apply w.now d.doc.store ⟨.updateBlock new old, "edit content"⟩ =
      .ok (d.doc.store.putBlock { new with updatedAt := w.now },
        ⟨.updateBlock x { new with updatedAt := w.now }, "edit content"⟩) :=
    Mutation.apply_eq_ok_iff.2 ⟨Change.apply_updateBlock.2 ⟨x, hx, rfl, rfl⟩, rfl⟩
  have hcommit := (History.commit_eq_ok_iff (h := d.doc) (by simp)).2
    ⟨_, _, applyGroup_singleton_eq_ok_iff.2 ⟨_, hwrite, rfl⟩, rfl⟩
  simp only [step, Document.plain, Document.commit, hcommit]
  rfl

end Task

/-! ## All steps in a row -/

namespace Floor

variable (r : ContentRegistry) {w : Ambient}

theorem take_step_last (desk : Desk History) (es : List Errand) (e : Errand) :
    take r ⟨desk, es ++ [e]⟩ (.step es.length w) = ⟨(e.task.step .plain w desk).1, es ++ [e.stepped w desk]⟩ := by
  rw [take_step r (List.getElem?_concat_length), List.set_append_right _ _ (Nat.le_refl _), Nat.sub_self,
    List.set_cons_zero]

theorem run_step_last {desk desk' : Desk History} (es : List Errand) (call : Call) {t t' : Task}
    (turns : List (History × History)) (hstep : t.step .plain w desk = (desk', t')) (ms : List Move) :
    run r ⟨desk, es ++ [⟨call, t, turns⟩]⟩ (.step es.length w :: ms) =
      run r ⟨desk', es ++ [⟨call, t', turns ++ [(desk.doc, desk'.doc)]⟩]⟩ ms := by
  rw [run, List.foldl_cons, take_step_last, Errand.stepped, hstep]
  rfl

/-- a call that is done does nothing more, whatever is left of its steps -/
theorem run_steps_done (desk : Desk History) (es : List Errand) (e : Errand) {result : Except CallError CallAnswer}
    (hdone : e.task.phase = .done result) (ws : List Ambient) :
    ∃ e', run r ⟨desk, es ++ [e]⟩ (ws.map (.step es.length)) = ⟨desk, es ++ [e']⟩ ∧ e'.task = e.task := by
  induction ws generalizing e with
  | nil => exact ⟨e, rfl, rfl⟩
  | cons w ws ih =>
    have hstep : e.task.step .plain w desk = (desk, e.task) := by simp only [Task.step, hdone]
    rw [List.map_cons, run_step_last r es e.call e.turns hstep]
    exact ih ⟨e.call, e.task, _⟩ hdone

variable {f : Floor} {b : Block}

/-- **A rewrite by itself.** The call succeeds, and puts what it was made for into the block as it stands. -/
theorem complete_rewrite (w : Ambient) {handle : Handle} {c : Call} {ρ : Rewrite} (hc : c.rewrite? = some ρ)
    (hb : f.history.store.block? ρ.id = some b) (hp : b.parentId = handle.card) :
    ∃ b', b'.unstamped = (b.rewritten ρ).unstamped ∧
      ∃ e, (f.complete r w handle c).errands = f.errands ++ [e] ∧ e.succeeded ∧
        (f.complete r w handle c).history = ⟨f.history.store.putBlock b',
          ⟨"edit content", [⟨.updateBlock b b', "edit content"⟩]⟩ :: f.history.undos, []⟩ := by
  have hid : b.id = ρ.id := Store.id_of_block? hb
  have hread : Task.step .plain w f.desk ⟨handle, f.errands.length, .fetching ρ.id ρ.kind ρ.value⟩ = _ :=
    Task.step_fetching hb hp
  have hwrite : Task.step .plain w f.desk ⟨handle, f.errands.length, .replacing (b.rewritten ρ) b⟩ = _ :=
    Task.step_replacing (x := b) (hid.symm ▸ hb)
  have hcomplete : f.complete r w handle c =
      run r ⟨f.desk, f.errands ++ [⟨c, ⟨handle, f.errands.length, .start r c⟩, []⟩]⟩
        (List.replicate 6 (.step f.errands.length w)) := by rw [complete, run, List.foldl_cons]; rfl
  -- the first step reads the block, the second writes it, and the others find the call done
  rw [List.replicate_succ, List.replicate_succ, run, List.foldl_cons, take_step_last, Errand.stepped,
    Phase.start_rewrite r hc, hread, List.foldl_cons, take_step_last, Errand.stepped, hwrite] at hcomplete
  refine ⟨{ b.rewritten ρ with updatedAt := w.now }, rfl, ?_⟩
  rw [hcomplete]
  obtain ⟨e, hrest, htask⟩ := run_steps_done r _ f.errands
    ⟨c, ⟨handle, f.errands.length, .done (.ok (.block (b.rewritten ρ)))⟩, _⟩ rfl (List.replicate 4 w)
  rw [List.map_replicate] at hrest
  exact ⟨e, congrArg Floor.errands hrest, by rw [Errand.succeeded, htask], congrArg Floor.history hrest⟩

/-- **Rewrites one after the other.** All succeed, each is one step of the history, and the block ends as they leave it
in turn. -/
theorem completeAll_rewrites (w : Nat → Ambient) {id : Uuid} {cs : List (Handle × Call)}
    (hcs : ∀ c ∈ cs, c.1.card = b.parentId ∧ ∃ ρ, c.2.rewrite? = some ρ ∧ ρ.id = id)
    (hb : f.history.store.block? id = some b) :
    (∃ es, (f.completeAll r w cs).errands = f.errands ++ es ∧ es.length = cs.length ∧ ∀ e ∈ es, e.succeeded) ∧
    (f.completeAll r w cs).history.store.Alike
      (f.history.store.putBlock (b.rewrittenByAll (cs.map Prod.snd))) ∧
    (f.completeAll r w cs).history.undos.length = f.history.undos.length + cs.length := by
  induction cs generalizing f b with
  | nil => exact ⟨⟨[], by simp [completeAll]⟩, .of_eq (Store.putBlock_self hb).symm, rfl⟩
  | cons c cs ih =>
    obtain ⟨hcard, ρ, hρ, rfl⟩ := hcs c List.mem_cons_self
    have hby : b.rewrittenBy c.2 = b.rewritten ρ := by simp [Block.rewrittenBy, hρ]
    obtain ⟨b', hsame, e, herrands, hsucceeded, hhistory⟩ :=
      complete_rewrite r (w f.errands.length) hρ hb hcard.symm
    rw [← hby] at hsame
    have hid : b'.id = ρ.id :=
      (Block.id_eq_of_unstamped hsame).trans ((b.id_rewrittenBy c.2).trans (Store.id_of_block? hb))
    have hparent : b'.parentId = b.parentId := (Block.parentId_eq_of_unstamped hsame).trans (by rw [hby]; rfl)
    -- the block now stands as the first call left it
    have hb' : (f.complete r (w f.errands.length) c.1 c.2).history.store.block? ρ.id = some b' := by
      rw [hhistory, Store.block?_putBlock, if_pos hid.symm]
    obtain ⟨⟨es, hes, hlength, hall⟩, hstore, hundos⟩ :=
      ih (fun c' hc' => hparent ▸ hcs c' (List.mem_cons_of_mem _ hc')) hb'
    rw [hhistory] at hstore hundos
    refine ⟨⟨e :: es, ?_, by simp [hlength], ?_⟩, ?_, ?_⟩
    · rw [List.append_cons, ← herrands]
      exact hes
    · exact List.forall_mem_cons.2 ⟨hsucceeded, hall⟩
    · have hown : b'.id = (b'.rewrittenByAll (cs.map Prod.snd)).id := (b'.id_rewrittenByAll _).symm
      rw [Store.putBlock_overwrite hown] at hstore
      exact hstore.trans ((Store.Alike.refl _).putBlock (Block.unstamped_rewrittenByAll hsame _))
    · have : (f.completeAll r w (c :: cs)).history.undos.length = f.history.undos.length + 1 + cs.length := hundos
      rw [List.length_cons]
      omega

end Floor

end Corkboard
