/-
What a call that ended has done.

A call that adds, saves a new block, deletes or moves reads the order of its card in one step and writes a group in a
later one, and may do so again after a refusal. Whatever happens between its steps:

- `errand_outcome`: a call that failed left the history alone at each of its steps; a call that succeeded changed it at
  exactly one of them, by one step of the history, and made its sequential effect (`Call.Effect`) on the order of that
  moment.

The invariant is `Errand.Course`: before its write a call still intends the edit it was made for, and all its steps were
quiet; afterwards it holds the answer that its write decided.
-/
import Corkboard.Desk.Floor
import Corkboard.Proofs.Desk.Step

namespace Corkboard

/-! ## The sequential effect -/

namespace Call

/-- the calls that write one order once -/
def Single : Call → Prop
  | add _ _ | save ⟨none, _, _⟩ _ | delete _ | move _ _ => True
  | _ => False

/-- a new block put in, and its entry at an index of the order, at the end when the index is beyond it -/
def Inserts (s : Store) (c : Card) (b : Block) (index : Nat) (order : List Uuid) (s' : Store) : Prop :=
  b.parentId = c.id ∧ s.block? b.id = none ∧
  order = c.contentOrder.insertIdx (min index c.contentOrder.length) b.id ∧
  s' = (s.putBlock b).putCard { c with contentOrder := order }

/-- the sequential operation on a card as the store has it: the entry it is about, the order and the store afterwards,
and the answer -/
def Effect (s : Store) (c : Card) (id : Uuid) (order : List Uuid) (s' : Store) : Call → CallAnswer → Prop
  | add _ index, .block b => b.id = id ∧ Inserts s c b index order s'
  | save draft index, .block b => b.id = id ∧ b.kind = draft.tag ∧ b.value = draft.value ∧ Inserts s c b index order s'
  | delete x, .block b => x = id ∧ b.id = id ∧ (s.block? id).isSome ∧ order = c.contentOrder.filter (· ≠ id) ∧
    s' = (s.putCard { c with contentOrder := order }).dropBlock id
  | move x index, .order ids => x = id ∧ id ∈ c.contentOrder ∧ ids = order ∧
    order = (c.contentOrder.erase id).insertIdx (min index (c.contentOrder.length - 1)) id ∧
    s' = s.putCard { c with contentOrder := order }
  | _, _ => False

/-- the call made its effect on the card as one step of the history, and moved no other entry -/
structure Made (call : Call) (answer : CallAnswer) (card : Uuid) (h h' : History) : Prop where
  pushed : ∃ step, h'.undos = step :: h.undos
  cleared : h'.redos = []
  effect : ∃ c id order, h.store.card? card = some c ∧ call.Effect h.store c id order h'.store answer ∧
    order.filter (· ≠ id) = c.contentOrder.filter (· ≠ id) ∧ h'.store.Consistent card order

/-! ## Before and after the write -/

/-- the edit is the one that the call was made for -/
def Intends (call : Call) (card : Uuid) : OrderEdit → Prop
  | .insert b index => b.parentId = card ∧ ((∃ tag, call = .add tag index) ∨ call = .save ⟨none, b.kind, b.value⟩ index)
  | .remove b => call = .delete b.id
  | .move id index => call = .move id index

def Before (call : Call) (card : Uuid) : Phase → Prop
  | .opening _ _ index => ∃ tag, call = .add tag index
  | .making _ _ index c => (∃ tag, call = .add tag index) ∧ c.id = card
  | .drafting kind value index sequel => call = .save ⟨none, kind, value⟩ index ∧ sequel = .answer
  | .seeking id => call = .delete id
  | .waiting edit sequel | .reading edit sequel _ => call.Intends card edit ∧ sequel = .answer
  | .writing edit sequel _ c => call.Intends card edit ∧ sequel = .answer ∧ c.id = card
  | .done (.error _) => True
  | _ => False

/-- the phases after the write that decided the answer -/
def After (answer : CallAnswer) : Phase → Prop
  | .noting b sequel => sequel = .answer ∧ answer = .block b
  | .done (.ok a) => answer = a
  | _ => False

variable {call : Call} {card : Uuid} {h h' : History} {w : Ambient} {p p' : Phase} {answer : CallAnswer}

theorem before_start (r : ContentRegistry) (hs : call.Single) (card : Uuid) : call.Before card (.start r call) := by
  cases call with
  | add tag index =>
    simp only [Phase.start]
    cases r.get? tag with
    | some handler => exact ⟨tag, rfl⟩
    | none => trivial
  | save draft index =>
    obtain ⟨_ | id, tag, value⟩ := draft
    · exact ⟨rfl, rfl⟩
    · exact hs.elim
  | compose lines index => exact hs.elim
  | updateValue id value => exact hs.elim
  | delete id => exact rfl
  | move id index => exact ⟨rfl, rfl⟩

theorem before_of_next (hb : call.Before card p) (hn : Phase.Next h w card p p') : call.Before card p' := by
  cases hn with
  | opened hc => exact ⟨hb, Store.id_of_card? hc⟩
  | made _ => exact ⟨⟨hb.2, .inl hb.1⟩, rfl⟩
  | drafted hc =>
    obtain ⟨rfl, rfl⟩ := hb
    exact ⟨⟨Store.id_of_card? hc, .inr rfl⟩, rfl⟩
  | sought hblock _ =>
    obtain rfl := Store.id_of_block? hblock
    exact ⟨hb, rfl⟩
  | fetched _ _ => exact hb.elim
  | locked => exact hb
  | held => exact hb
  | read hc _ => exact ⟨hb.1, hb.2, Store.id_of_card? hc⟩
  | again _ _ _ _ => exact ⟨hb.1, hb.2.1⟩
  | noted => exact hb.elim
  | ended => exact hb
  | failed _ => trivial

theorem after_of_next (ha : After answer p) (hn : Phase.Next h w card p p') : After answer p' := by
  cases hn with
  | noted =>
    obtain ⟨rfl, rfl⟩ := ha
    exact rfl
  | ended => exact ha
  | failed hf =>
    cases p with
    | noting => exact hf.elim
    | done => exact hf.elim
    | _ => exact ha.elim
  | _ => exact ha.elim

/-- the write of an intended edit makes the effect of the call, and decides its answer -/
theorem made_of_written {edit : OrderEdit} {order : List Uuid} (hi : call.Intends card edit)
    (hw : edit.Written card order h h') :
    ∃ answer, call.Made answer card h h' ∧ After answer (Task.afterEdit edit .answer order) := by
  obtain ⟨c, hc, ho, hfits, hstore⟩ := hw.effect
  cases edit with
  | insert b index =>
    obtain ⟨hp, hcall⟩ := hi
    cases ho
    refine ⟨.block b, ⟨hw.pushed, hw.cleared, c, b.id, _, hc, ?_, filter_insertAt _ _ _, hw.consistent⟩, rfl, rfl⟩
    have hins : Inserts h.store c b index (insertAt c.contentOrder index b.id) h'.store :=
      ⟨hp.trans (Store.id_of_card? hc).symm, hfits.1, insertAt_eq_insertIdx _ _ _, hstore⟩
    rcases hcall with ⟨tag, rfl⟩ | rfl
    · exact ⟨rfl, hins⟩
    · exact ⟨rfl, rfl, rfl, hins⟩
  | remove b =>
    cases hi; cases ho
    refine ⟨.block b, ⟨hw.pushed, hw.cleared, c, b.id, _, hc, ⟨rfl, rfl, hfits, rfl, hstore⟩, ?_, hw.consistent⟩, rfl⟩
    simp
  | move id index =>
    cases hi
    simp only [OrderEdit.order?] at ho
    split at ho
    · rename_i hmem
      cases ho
      have hlen : (c.contentOrder.erase id).length = c.contentOrder.length - 1 := List.length_erase_of_mem hmem
      refine ⟨.order _, ⟨hw.pushed, hw.cleared, c, id, _, hc, ⟨rfl, hmem, rfl, ?_, hstore⟩, ?_, hw.consistent⟩, rfl⟩
      · rw [insertAt_eq_insertIdx, hlen]
      · rw [filter_insertAt, filter_erase]
    · cases ho

end Call

/-! ## The course of a call -/

/-- the history was the same before and after each of some steps -/
def Quiet (turns : List (History × History)) : Prop := ∀ t ∈ turns, t.2 = t.1

/-- one of the steps made the effect of the call, and the others were quiet -/
def MadeOnce (call : Call) (answer : CallAnswer) (card : Uuid) (turns : List (History × History)) : Prop :=
  ∃ before h h' after, turns = before ++ (h, h') :: after ∧ Quiet before ∧ Quiet after ∧ call.Made answer card h h'

/-- how far a call is: up to its write with quiet steps only, or after it with the answer decided -/
inductive Errand.Course (e : Errand) : Prop
  | before : e.call.Before e.task.handle.card e.task.phase → Quiet e.turns → e.Course
  | after {answer} : Call.After answer e.task.phase → MadeOnce e.call answer e.task.handle.card e.turns → e.Course

theorem Quiet.snoc {turns : List (History × History)} (hq : Quiet turns) (h : History) : Quiet (turns ++ [(h, h)]) := by
  intro t ht
  rcases List.mem_append.1 ht with ht | ht
  · exact hq t ht
  · obtain rfl := List.mem_singleton.1 ht
    rfl

theorem Errand.Course.step {e : Errand} (hc : e.Course) (w : Ambient) (d : Desk History) :
    Errand.Course ⟨e.call, (e.task.step .plain w d).2, e.turns ++ [(d.doc, (e.task.step .plain w d).1.doc)]⟩ := by
  obtain ⟨htask, hacts⟩ := e.task.step_acts w d
  rw [htask]
  generalize (e.task.step .plain w d).2.phase = p' at *
  generalize (e.task.step .plain w d).1.doc = h' at *
  obtain ⟨call, ⟨handle, name, phase⟩, turns⟩ := e
  cases hacts with
  | quiet hn =>
    cases hc with
    | before hb hq => exact .before (Call.before_of_next hb hn) (hq.snoc _)
    | after ha hm =>
      obtain ⟨pre, h₁, h₂, post, rfl, hpre, hpost, hmade⟩ := hm
      exact .after (Call.after_of_next ha hn) ⟨pre, h₁, h₂, post ++ [(d.doc, d.doc)], by simp, hpre, hpost.snoc _,
        hmade⟩
  | replaced _ =>
    cases hc with
    | before hb _ => exact hb.elim
    | after ha _ => exact ha.elim
  | edited hg hcommit =>
    cases hc with
    | before hb hq =>
      obtain ⟨hi, rfl, hread⟩ := hb
      obtain ⟨answer, hmade, hafter⟩ := Call.made_of_written hi (hread ▸ OrderEdit.written_of_commit hg hcommit)
      exact .after hafter ⟨turns, d.doc, h', [], rfl, hq, by simp [Quiet], hmade⟩
    | after ha _ => exact ha.elim

namespace Floor

variable {r : ContentRegistry} {f : Floor}

/-- a move keeps the course of every single call -/
theorem course_take (hf : ∀ e ∈ f.errands, e.call.Single → e.Course) (m : Move) :
    ∀ e ∈ (f.take r m).errands, e.call.Single → e.Course := by
  have hother : ∀ o : Except HistoryError (History × String), (f.ofStep o).errands = f.errands := by
    rintro (_ | _) <;> rfl
  cases m with
  | call handle c =>
    intro e he hs
    rcases List.mem_append.1 he with he | he
    · exact hf e he hs
    · obtain rfl := List.mem_singleton.1 he
      exact .before (Call.before_start r hs _) (by simp [Quiet])
  | step place w =>
    simp only [take]
    cases he : f.errands[place]? with
    | none => exact hf
    | some e =>
      intro e' he' hs
      rcases List.mem_or_eq_of_mem_set he' with he' | rfl
      · exact hf e' he' hs
      · exact (hf e (List.mem_of_getElem? he) hs).step w f.desk
  | undo now => simpa only [take, hother] using hf
  | redo now => simpa only [take, hother] using hf
  | insertCard c => exact hf
  | perform now group => exact hf

theorem course_run (hf : ∀ e ∈ f.errands, e.call.Single → e.Course) (ms : List Move) :
    ∀ e ∈ (f.run r ms).errands, e.call.Single → e.Course := by
  induction ms generalizing f with
  | nil => exact hf
  | cons m ms ih => exact ih (course_take hf m)

/-- **A call is done at one moment or not at all.** However the steps of calls are mixed with each other and with undo,
redo and other writes, a call that failed left the history alone at all its steps, and a call that succeeded changed it
at exactly one of them, where it made its effect on the order of that moment. -/
theorem errand_outcome (r : ContentRegistry) (h : History) (ms : List Move) (e : Errand)
    (he : e ∈ ((new h).run r ms).errands) (hs : e.call.Single) :
    (∀ err, e.task.phase = .done (.error err) → Quiet e.turns) ∧
    (∀ answer, e.task.phase = .done (.ok answer) → MadeOnce e.call answer e.task.handle.card e.turns) := by
  have hcourse : e.Course := course_run (by simp [new]) ms e he hs
  constructor
  · intro err hp
    cases hcourse with
    | before _ hq => exact hq
    | after ha _ => rw [hp] at ha; exact ha.elim
  · intro answer hp
    cases hcourse with
    | before hb _ => rw [hp] at hb; exact hb.elim
    | after ha hm => rw [hp] at ha; exact ha ▸ hm

/-- two additions at the head of one card through two handles; the second comes between the reading and the write of the
first, which reads the card again -/
def crossing : List Move :=
  [.call ⟨⟨1⟩, 0⟩ (.add "text" 0), .call ⟨⟨1⟩, 1⟩ (.add "text" 0)] ++
    List.replicate 4 (.step 0 ⟨5, ⟨20⟩, .nil⟩) ++ List.replicate 6 (.step 1 ⟨6, ⟨30⟩, .nil⟩) ++
    List.replicate 4 (.step 0 ⟨7, ⟨40⟩, .nil⟩)

theorem crossing_keeps_both :
    (((new History.OneBlock.start).run (.builtin .firstRegistered) crossing).history.store.card? ⟨1⟩).map
      (·.contentOrder) = some [⟨20⟩, ⟨30⟩] ∧
    ∃ e ∈ ((new History.OneBlock.start).run (.builtin .firstRegistered) crossing).errands, ∃ b : Block, b.id = ⟨20⟩ ∧
      e.task.phase = .done (.ok (.block b)) ∧ MadeOnce (.add "text" 0) (.block b) ⟨1⟩ e.turns := by
  refine ⟨rfl, _, List.mem_of_getElem? (i := 0) rfl, _, ?_, rfl, ?_⟩
  · rfl
  · exact (errand_outcome (.builtin .firstRegistered) History.OneBlock.start crossing _
      (List.mem_of_getElem? (i := 0) rfl) trivial).2 _ rfl

end Floor

end Corkboard
