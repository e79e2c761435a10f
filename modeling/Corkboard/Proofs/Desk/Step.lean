/-
What one step of a content call does.

A step either leaves the history as it is and goes on to a phase that `Phase.Next` lists, or it commits one group and
goes on: the replacement of a block, or the edit of an order. `Task.step_acts` says so once, and no other proof opens
the step function.
-/
import Corkboard.Desk.Floor
import Corkboard.Proofs.Desk.Edits

namespace Corkboard

/-- why a call on a card ends without success at a phase, given the history -/
def Phase.Fails (h : History) (w : Ambient) (card : Uuid) : Phase → CallError → Prop
  | opening _ _ _, e | drafting _ _ _ _, e => h.store.card? card = none ∧ e = .cardNotFound card
  | making _ factory _ _, e => ∃ x, factory.outcome = .error x ∧ e = .content x
  | seeking id, e | fetching id _ _, e =>
    (∀ b, h.store.block? id = some b → b.parentId ≠ card) ∧ e = .blockNotFound id
  | replacing new old, e =>
    ∃ x, h.commit w.now [⟨.updateBlock new old, "edit content"⟩] = .error x ∧ e = .history x
  | reading edit _ _, e => (h.store.card? card = none ∧ e = .cardNotFound card) ∨
    ∃ c, h.store.card? card = some c ∧ edit.group c = .error e
  | writing edit _ attempt read, e => edit.group read = .error e ∨
    ∃ group order x, edit.group read = .ok (group, order) ∧ h.commit w.now group = .error x ∧
      ¬ (x.isStale ∧ attempt < orderRetries) ∧ e = .history x
  | _, _ => False

/-- where a call on a card goes on without a write, and what it has found in the history by then -/
inductive Phase.Next (h : History) (w : Ambient) (card : Uuid) : Phase → Phase → Prop
  | opened {kind factory index c} : h.store.card? card = some c →
    Next h w card (.opening kind factory index) (.making kind factory index c)
  | made {kind factory index c value} : factory.outcome = .ok value →
    Next h w card (.making kind factory index c)
      (.waiting (.insert ((Block.fresh w.id w.now c.rootId kind value).attachTo c) index) .answer)
  | drafted {kind value index sequel c} : h.store.card? card = some c →
    Next h w card (.drafting kind value index sequel)
      (.waiting (.insert ((Block.fresh w.id w.now c.rootId kind value).attachTo c) index) sequel)
  | sought {id b} : h.store.block? id = some b → b.parentId = card →
    Next h w card (.seeking id) (.waiting (.remove b) .answer)
  | fetched {id kind value b} : h.store.block? id = some b → b.parentId = card →
    Next h w card (.fetching id kind value) (.replacing { b with kind := kind.getD b.kind, value := value } b)
  | locked {edit sequel} : Next h w card (.waiting edit sequel) (.reading edit sequel 0)
  | held {edit sequel} : Next h w card (.waiting edit sequel) (.waiting edit sequel)
  | read {edit sequel attempt c g} : h.store.card? card = some c → edit.group c = .ok g →
    Next h w card (.reading edit sequel attempt) (.writing edit sequel attempt c)
  | again {edit sequel attempt read group order e} : edit.group read = .ok (group, order) →
    h.commit w.now group = .error e → e.isStale → attempt < orderRetries →
    Next h w card (.writing edit sequel attempt read) (.reading edit sequel (attempt + 1))
  | noted {b sequel} : Next h w card (.noting b sequel) (.afterBlock b sequel)
  | ended {r} : Next h w card (.done r) (.done r)
  | failed {p : Phase} {e} : p.Fails h w card e → Next h w card p (.done (.error e))

/-- the history and the phase of a call on a card, before and after one step -/
inductive Task.Acts (w : Ambient) (card : Uuid) (h : History) : Phase → History → Phase → Prop
  | quiet {p p'} : Phase.Next h w card p p' → Acts w card h p h p'
  | replaced {new old h'} : h.commit w.now [⟨.updateBlock new old, "edit content"⟩] = .ok h' →
    Acts w card h (.replacing new old) h' (.done (.ok (.block new)))
  | edited {edit sequel attempt read group order h'} : edit.group read = .ok (group, order) →
    h.commit w.now group = .ok h' →
    Acts w card h (.writing edit sequel attempt read) h' (afterEdit edit sequel order)

namespace Task

variable {σ : Type} {D : Document σ} {d : Desk σ} {t : Task}

theorem readCard_cases : (∃ c, t.readCard D d = .ok c ∧ (D.store d.doc).card? t.handle.card = some c) ∨
    (t.readCard D d = .error (.cardNotFound t.handle.card) ∧ (D.store d.doc).card? t.handle.card = none) := by
  unfold readCard
  cases (D.store d.doc).card? t.handle.card <;> simp

theorem readOwned_cases (id : Uuid) :
    (∃ b, t.readOwned D d id = .ok b ∧ (D.store d.doc).block? id = some b ∧ b.parentId = t.handle.card) ∨
    (t.readOwned D d id = .error (.blockNotFound id) ∧
      ∀ b, (D.store d.doc).block? id = some b → b.parentId ≠ t.handle.card) := by
  unfold readOwned
  cases (D.store d.doc).block? id with
  | none => simp
  | some x => by_cases hx : x.parentId = t.handle.card <;> simp [Option.filter, hx]

theorem commit_cases (now : Int) (h : History) (ms : List Mutation) :
    (∃ h', Document.commit now h ms = (h', .ok ()) ∧ h.commit now ms = .ok h') ∨
    (∃ e, Document.commit now h ms = (h, .error e) ∧ h.commit now ms = .error e) := by
  unfold Document.commit
  cases h.commit now ms <;> simp

/-- **What a step does.** The handle and the name stay; the history and the phase change as `Acts` says. -/
theorem step_acts (w : Ambient) (d : Desk History) (t : Task) :
    (t.step .plain w d).2 = { t with phase := (t.step .plain w d).2.phase } ∧
    Acts w t.handle.card d.doc t.phase (t.step .plain w d).1.doc (t.step .plain w d).2.phase := by
  cases hp : t.phase with
  | opening kind factory index =>
    simp only [step, hp]
    rcases readCard_cases (D := .plain) (d := d) (t := t) with ⟨c, hr, hc⟩ | ⟨hr, hc⟩
    · rw [hr]; exact ⟨rfl, .quiet (.opened hc)⟩
    · rw [hr]; exact ⟨rfl, .quiet (.failed ⟨hc, rfl⟩)⟩
  | making kind factory index card =>
    simp only [step, hp, Factory.make]
    cases ho : factory.outcome with
    | ok value => exact ⟨rfl, .quiet (.made ho)⟩
    | error e => exact ⟨rfl, .quiet (.failed ⟨e, ho, rfl⟩)⟩
  | drafting kind value index sequel =>
    simp only [step, hp]
    rcases readCard_cases (D := .plain) (d := d) (t := t) with ⟨c, hr, hc⟩ | ⟨hr, hc⟩
    · rw [hr]; exact ⟨rfl, .quiet (.drafted hc)⟩
    · rw [hr]; exact ⟨rfl, .quiet (.failed ⟨hc, rfl⟩)⟩
  | seeking id =>
    simp only [step, hp]
    rcases readOwned_cases (D := .plain) (d := d) (t := t) id with ⟨b, hr, hb, hown⟩ | ⟨hr, hb⟩
    · rw [hr]; exact ⟨rfl, .quiet (.sought hb hown)⟩
    · rw [hr]; exact ⟨rfl, .quiet (.failed ⟨hb, rfl⟩)⟩
  | fetching id kind value =>
    simp only [step, hp]
    rcases readOwned_cases (D := .plain) (d := d) (t := t) id with ⟨b, hr, hb, hown⟩ | ⟨hr, hb⟩
    · rw [hr]; exact ⟨rfl, .quiet (.fetched hb hown)⟩
    · rw [hr]; exact ⟨rfl, .quiet (.failed ⟨hb, rfl⟩)⟩
  | replacing new old =>
    simp only [step, hp, Document.plain]
    rcases commit_cases w.now d.doc [⟨.updateBlock new old, "edit content"⟩] with ⟨h', hr, hc⟩ | ⟨e, hr, hc⟩
    · rw [hr]; exact ⟨rfl, .replaced hc⟩
    · rw [hr]; exact ⟨rfl, .quiet (.failed ⟨e, hc, rfl⟩)⟩
  | waiting edit sequel =>
    simp only [step, hp]
    split
    · exact ⟨rfl, .quiet .locked⟩
    · exact ⟨rfl, by simpa only [hp] using .quiet .held⟩
  | reading edit sequel attempt =>
    simp only [step, hp]
    rcases readCard_cases (D := .plain) (d := d) (t := t) with ⟨c, hr, hc⟩ | ⟨hr, hc⟩
    · simp only [hr]
      cases hg : edit.group c with
      | ok g => exact ⟨rfl, .quiet (.read hc hg)⟩
      | error e => exact ⟨rfl, .quiet (.failed (.inr ⟨c, hc, hg⟩))⟩
    · rw [hr]; exact ⟨rfl, .quiet (.failed (.inl ⟨hc, rfl⟩))⟩
  | writing edit sequel attempt card =>
    simp only [step, hp, Document.plain]
    cases hg : edit.group card with
    | error e => exact ⟨rfl, .quiet (.failed (.inl hg))⟩
    | ok g =>
      obtain ⟨group, order⟩ := g
      rcases commit_cases w.now d.doc group with ⟨h', hr, hc⟩ | ⟨e, hr, hc⟩
      · simp only [hr]
        exact ⟨rfl, .edited hg hc⟩
      · simp only [hr]
        split
        · rename_i hretry
          exact ⟨rfl, .quiet (.again hg hc hretry.1 hretry.2)⟩
        · rename_i hlast
          exact ⟨rfl, .quiet (.failed (.inr ⟨group, order, e, hg, hc, hlast, rfl⟩))⟩
  | noting b sequel =>
    simp only [step, hp]
    exact ⟨rfl, .quiet .noted⟩
  | done r =>
    simp only [step, hp]
    exact ⟨by rw [← hp], .quiet .ended⟩

/-- a step of a call takes or leaves the lock of its own handle only -/
theorem holder_step (w : Ambient) (d : Desk History) (t : Task) {handle : Handle} (hne : handle ≠ t.handle) :
    (t.step .plain w d).1.holder handle = d.holder handle := by
  have hset : ∀ (d : Desk History) (who : Option Nat), (d.setHolder t.handle who).holder handle = d.holder handle :=
    fun d who => if_neg hne
  cases hp : t.phase with
  | replacing new old =>
    simp only [step, hp]
    split <;> rfl
  | waiting edit sequel =>
    simp only [step, hp]
    split
    · exact hset d _
    · rfl
  | reading edit sequel attempt =>
    simp only [step, hp]
    split
    · split
      · rfl
      · exact hset d _
    · exact hset d _
  | writing edit sequel attempt card =>
    simp only [step, hp]
    split
    · exact hset d _
    · split
      · exact hset _ _
      · split
        · rfl
        · exact hset _ _
  | _ => simp only [step, hp, Desk.setNewest]

end Task

theorem Errand.stepped_acts (e : Errand) (w : Ambient) (d : Desk History) :
    (e.stepped w d).task.handle = e.task.handle ∧
    Task.Acts w e.task.handle.card d.doc e.task.phase (e.task.step .plain w d).1.doc (e.stepped w d).task.phase := by
  obtain ⟨htask, hacts⟩ := e.task.step_acts w d
  exact ⟨by rw [stepped, htask], hacts⟩

end Corkboard
