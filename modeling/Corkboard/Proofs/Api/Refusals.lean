/-
Requests that are answered with an error.

A request may fail anywhere: before it has read anything, after its block was made, in the middle of a group, at the
last try to write an order. Its turns tell what it has changed by then, and for every request but one that is nothing.

- `errors_leave_no_trace`: whatever else goes on, no turn of a request that is answered with an error has changed cards,
  blocks, stacks, templates or people. Compositions are the exception: the blocks saved before the failing one stay,
  each by a group of its own. A request that is not routed has no turn, and a refused order leaves the store as it was.

What a request has done by then is told by its phase (`RequestPhase.Leaves`). `Leaves.step` is one turn, `Traced.take`
one event of the traffic.
-/
import Corkboard.Api.Service
import Corkboard.Proofs.Api.Counts
import Corkboard.Proofs.Desk.Compositions

namespace Corkboard

/-! ## Turns -/

/-- cards, blocks, both stacks, templates and people are as they were -/
def App.Same (a a' : App) : Prop := a'.desk.doc = a.desk.doc ∧ a'.board = a.board

/-- none of these turns has changed anything -/
def Untouched (turns : List (App × App)) : Prop := ∀ t ∈ turns, t.1.Same t.2

/-- turns that saved blocks at the places counted from an index, each as one group on its card, and did nothing else -/
inductive Saved (card : Uuid) (index : Nat) : List Block → List (App × App) → Prop
  | none {turns} : Untouched turns → Saved card index [] turns
  | same {bs turns a a'} : Saved card index bs turns → a.Same a' → Saved card index bs (turns ++ [(a, a')])
  | block {bs turns b order a a'} : Saved card index bs turns →
    (OrderEdit.insert b (index + bs.length)).Written card order a.desk.doc a'.desk.doc → a'.board = a.board →
    Saved card index (bs ++ [b]) (turns ++ [(a, a')])

variable {turns : List (App × App)} {a a' : App} {r : ContentRegistry} {card : Uuid}

theorem Untouched.snoc (hu : Untouched turns) (hs : a.Same a') : Untouched (turns ++ [(a, a')]) := by
  intro t ht
  rcases List.mem_append.1 ht with ht | ht
  · exact hu t ht
  · obtain rfl := List.mem_singleton.1 ht
    exact hs

/-! ## Calls -/

namespace Call

/-- what the turns of a call amount to that has failed: nothing; but a composition may have saved blocks for the first
of its drafts, and if so, there is a draft that it has not saved -/
def Refused (r : ContentRegistry) (card : Uuid) (turns : List (App × App)) : Call → Prop
  | compose lines index => ∃ bs left, Saved card index bs turns ∧ (bs ≠ [] → left ≠ []) ∧
      (Editor.enterLines r .new lines).map (fun d => (d.tag, d.value)) = bs.map (fun b => (b.kind, b.value)) ++ left
  | _ => Untouched turns

/-- what a call has done by the time it reaches a phase: a composition has saved the blocks that it counts, and another
call that has committed nothing has changed nothing -/
def Leaves (r : ContentRegistry) (card : Uuid) (turns : List (App × App)) (p : Phase) : Call → Prop
  | compose lines index => ∃ bs, Saved card index bs turns ∧ p.Composes card (Editor.enterLines r .new lines) index bs
  | k => ∃ n, p.Counts k n ∧ (n = 0 → Untouched turns)

variable {k : Call} {p : Phase}

theorem leaves_iff (hk : ¬ k.Composes) : k.Leaves r card turns p ↔ ∃ n, p.Counts k n ∧ (n = 0 → Untouched turns) := by
  cases k <;> first | exact Iff.rfl | exact (hk trivial).elim

theorem refused_iff (hk : ¬ k.Composes) : k.Refused r card turns ↔ Untouched turns := by
  cases k <;> first | exact Iff.rfl | exact (hk trivial).elim

theorem refused_of_untouched (hu : Untouched turns) : k.Refused r card turns := by
  cases k with
  | compose lines index => exact ⟨[], _, .none hu, fun hne => absurd rfl hne, rfl⟩
  | _ => exact hu

theorem Refused.same (hr : k.Refused r card turns) (hs : a.Same a') : k.Refused r card (turns ++ [(a, a')]) := by
  cases k with
  | compose lines index =>
    obtain ⟨bs, left, hsaved, hleft, hdrafts⟩ := hr
    exact ⟨bs, left, hsaved.same hs, hleft, hdrafts⟩
  | _ => exact Untouched.snoc hr hs

theorem leaves_start (hu : Untouched turns) : k.Leaves r card turns (.start r k) := by
  cases k with
  | compose lines index => exact ⟨[], .none hu, Phase.composes_composing rfl⟩
  | _ => exact ⟨0, Phase.counts_start _ _, fun _ => hu⟩

end Call

namespace Phase

variable {k : Call} {n : Nat} {h : History} {w : Ambient} {p p' : Phase} {e : CallError}

/-- a phase in which an error appears is one that fails -/
theorem fails_of_next (hn : Next h w card p p') (he : p' = .done (.error e)) :
    p = .done (.error e) ∨ p.Fails h w card e := by
  cases hn with
  | @noted b sequel =>
    cases sequel with
    | answer => cases he
    | compose saved drafts index => cases drafts <;> cases he
  | ended => exact .inl he
  | failed hf =>
    cases he
    exact .inr hf
  | _ => cases he

/-- a call that fails has committed nothing, unless it is a composition -/
theorem Counts.eq_zero_of_fails (hk : ¬ k.Composes) (hc : p.Counts k n) (hf : p.Fails h w card e) : n = 0 := by
  have hsequel : ∀ sequel : Sequel, sequel.Counts k n → n = 0 := by
    intro sequel hc
    cases sequel with
    | answer => exact hc.2
    | compose saved drafts index => exact (hk hc.1).elim
  have hedit : ∀ (edit : OrderEdit) (sequel : Sequel), edit.Counts k n sequel → n = 0 := by
    intro edit sequel hc
    cases edit with
    | insert b index => exact hsequel sequel hc
    | remove b => exact hc.2
    | move id index => exact hc.2
  cases p with
  | opening kind factory index => exact hc.2
  | making kind factory index card => exact hc.2
  | drafting kind value index sequel => exact hsequel sequel hc
  | seeking id => exact hc.2
  | fetching id kind value => exact hc.2
  | replacing new old => exact hc.2
  | waiting edit sequel => exact hf.elim
  | reading edit sequel attempt => exact hedit edit sequel hc
  | writing edit sequel attempt read => exact hedit edit sequel hc
  | noting b sequel => exact hf.elim
  | done result => exact hf.elim

/-- a composition fails at a draft -/
theorem Composes.left_of_fails {drafts : List Committed} {index : Nat} {saved : List Block}
    (hp : p.Composes card drafts index saved) (hf : p.Fails h w card e) :
    ∃ left, left ≠ [] ∧ drafts.map (fun d => (d.tag, d.value)) = saved.map (fun b => (b.kind, b.value)) ++ left := by
  cases p with
  | drafting kind value place sequel =>
    obtain ⟨-, rest, -, hdrafts⟩ := hp
    exact ⟨_, by simp, hdrafts⟩
  | reading edit sequel attempt =>
    obtain ⟨b, -, rest, -, hdrafts⟩ := hp
    exact ⟨_, by simp, hdrafts⟩
  | writing edit sequel attempt read =>
    obtain ⟨-, b, -, rest, -, hdrafts⟩ := hp
    exact ⟨_, by simp, hdrafts⟩
  | done result => exact hf.elim
  | waiting edit sequel => exact hf.elim
  | noting b sequel => exact hf.elim
  | _ => exact hp.elim

end Phase

namespace Call

variable {k : Call} {h h' : History} {w : Ambient} {p p' : Phase} {e : CallError}

theorem leaves_compose {lines : List String} {index : Nat} (hl : (compose lines index).Leaves r card turns p)
    (ha : Task.Acts w card h p h' p') (hh : a.desk.doc = h) (hh' : a'.desk.doc = h') (hb : a'.board = a.board) :
    (compose lines index).Leaves r card (turns ++ [(a, a')]) p' ∧
    ∀ e, p' = .done (.error e) → p = .done (.error e) ∨ (compose lines index).Refused r card (turns ++ [(a, a')]) := by
  obtain ⟨bs, hsaved, hcomposes⟩ := hl
  cases ha with
  | quiet hn =>
    have hsame : a.Same a' := ⟨hh'.trans hh.symm, hb⟩
    refine ⟨⟨bs, hsaved.same hsame, Phase.composes_next hcomposes hn⟩, fun e he => ?_⟩
    rcases Phase.fails_of_next hn he with hp | hf
    · exact .inl hp
    · obtain ⟨left, hleft, hdrafts⟩ := hcomposes.left_of_fails hf
      exact .inr ⟨bs, left, hsaved.same hsame, fun _ => hleft, hdrafts⟩
  | replaced _ => exact hcomposes.elim
  | @edited edit sequel attempt read group order _ hg hcommit =>
    obtain ⟨b, hread, rfl, hnext⟩ := Phase.composes_write order hcomposes
    subst hh hh'
    have hwritten := OrderEdit.written_of_commit hg hcommit
    exact ⟨⟨bs ++ [b], hsaved.block (hread ▸ hwritten) hb, hnext⟩, fun e he => by cases he⟩

theorem leaves_single (hk : ¬ k.Composes) (hl : k.Leaves r card turns p) (ha : Task.Acts w card h p h' p')
    (hh : a.desk.doc = h) (hh' : a'.desk.doc = h') (hb : a'.board = a.board) :
    k.Leaves r card (turns ++ [(a, a')]) p' ∧
    ∀ e, p' = .done (.error e) → p = .done (.error e) ∨ k.Refused r card (turns ++ [(a, a')]) := by
  rw [leaves_iff hk] at hl ⊢
  rw [refused_iff hk]
  obtain ⟨n, hcount, hnothing⟩ := hl
  cases ha with
  | quiet hn =>
    have hsame : a.Same a' := ⟨hh'.trans hh.symm, hb⟩
    refine ⟨⟨n, hcount.next hn, fun hzero => (hnothing hzero).snoc hsame⟩, fun e he => ?_⟩
    rcases Phase.fails_of_next hn he with hp | hf
    · exact .inl hp
    · exact .inr ((hnothing (hcount.eq_zero_of_fails hk hf)).snoc hsame)
  | replaced hcommit =>
    obtain ⟨hone, rfl⟩ := hcount
    exact ⟨⟨1, ⟨hone, rfl⟩, nofun⟩, fun e he => by cases he⟩
  | @edited edit sequel attempt read group order _ hg hcommit =>
    refine ⟨⟨n + 1, Phase.counts_afterEdit hcount order, nofun⟩, fun e he => ?_⟩
    cases edit <;> cases he

theorem Leaves.step (hl : k.Leaves r card turns p) (ha : Task.Acts w card h p h' p') (hh : a.desk.doc = h)
    (hh' : a'.desk.doc = h') (hb : a'.board = a.board) : k.Leaves r card (turns ++ [(a, a')]) p' ∧
    ∀ e, p' = .done (.error e) → p = .done (.error e) ∨ k.Refused r card (turns ++ [(a, a')]) := by
  cases k with
  | compose lines index => exact leaves_compose hl ha hh hh' hb
  | _ => exact leaves_single id hl ha hh hh' hb

end Call

/-! ## Requests -/

/-- what the turns of a request amount to that is answered with an error: nothing, except what its call may leave -/
def Command.Refused (r : ContentRegistry) (turns : List (App × App)) : Command → Prop
  | .compose card lines index => (Call.compose lines (index.getD RequestPhase.atEnd)).Refused r card turns
  | _ => Untouched turns

namespace Command

variable {c : Command}

theorem refused_of_untouched (hu : Untouched turns) : c.Refused r turns := by
  cases c with
  | compose card lines index => exact Call.refused_of_untouched (k := .compose lines _) hu
  | _ => exact hu

theorem Refused.same (hr : c.Refused r turns) (hs : a.Same a') : c.Refused r (turns ++ [(a, a')]) := by
  cases c with
  | compose card lines index => exact Call.Refused.same (k := .compose lines _) hr hs
  | _ => exact Untouched.snoc hr hs

theorem refused_of_call {purpose : Purpose} {k : Call} (hc : c.call? = some (card, purpose, k))
    (hr : k.Refused r card turns) : c.Refused r turns := by
  cases c <;> cases hc <;> exact hr

end Command

namespace RequestPhase

/-- what a request has done by the time it reaches a phase -/
def Leaves (r : ContentRegistry) (c : Command) (turns : List (App × App)) (h : History) : RequestPhase → Prop
  | start c' => c' = c ∧ Untouched turns
  | call t purpose => ∃ k, c.call? = some (t.handle.card, purpose, k) ∧ k.Leaves r t.handle.card turns t.phase ∧
      ∀ e, t.phase = .done (.error e) → k.Refused r t.handle.card turns
  | readBack card => (h.store.card? card).isSome
  | done reply => 400 ≤ reply.status.code → c.Refused r turns
  | _ => Untouched turns

variable {c : Command} {h h' : History} {p p' : RequestPhase} {m : Ambient} {w : AppWorld} {name : Nat}

theorem leaves_fail (hu : Untouched turns) (e : ApiError) : (fail e).Leaves r c turns h := fun _ =>
  Command.refused_of_untouched hu

theorem leaves_of_untouched (hu : Untouched turns) (hp : p.Reads ∨ p.reply?.isSome) : p.Leaves r c turns h := by
  cases p with
  | start c' => rcases hp with hp | hp <;> cases hp
  | call t purpose => rcases hp with hp | hp <;> cases hp
  | readBack card => rcases hp with hp | hp <;> cases hp
  | done reply => exact fun _ => Command.refused_of_untouched hu
  | _ => exact hu

/-- a request that is answered without an error is of no account here -/
theorem leaves_done {reply : Reply} (hs : reply.status.code < 400) : (done reply).Leaves r c turns h := fun he =>
  absurd he (Nat.not_le.2 hs)

/-- cards stay, so a request that will read one again will find it -/
theorem Leaves.mono (hl : p.Leaves r c turns h) (hr : h.Retains h') : p.Leaves r c turns h' := by
  cases p with
  | readBack card => exact hr card hl
  | _ => exact hl

/-- no request takes a card away -/
theorem retains_acts (ha : Acts m h p h' p') : h.Retains h' := by
  cases ha with
  | calm _ => exact fun _ hid => hid
  | @called t purpose _ _ hacts =>
    obtain ⟨handle, name, phase⟩ := t
    cases hacts with
    | quiet _ => exact fun _ hid => hid
    | replaced hc => exact History.retains_commit hc
    | edited _ hc => exact History.retains_commit hc
  | undone hu => exact History.retains_undo hu
  | redone hr => exact History.retains_redo hr
  | created => exact fun _ hid => Store.isSome_card?_putCard hid _
  | wrote hc => exact History.retains_commit hc

theorem status_ofResult (purpose : Purpose) (answer : CallAnswer) :
    (ofResult purpose (.ok answer)).status.code < 400 := by
  cases answer <;> cases purpose <;> (simp only [ofResult, Reply.status]; decide)

theorem leaves_afterCall {t : Task} {purpose : Purpose} {k : Call} (hc : c.call? = some (t.handle.card, purpose, k))
    (hl : k.Leaves r t.handle.card turns t.phase)
    (he : ∀ e, t.phase = .done (.error e) → k.Refused r t.handle.card turns) :
    (afterCall purpose t).Leaves r c turns h := by
  obtain ⟨handle, name, phase⟩ := t
  cases phase with
  | done result =>
    cases result with
    | error e => exact fun _ => Command.refused_of_call hc (he e rfl)
    | ok answer => exact leaves_done (status_ofResult purpose answer)
  | _ => exact ⟨k, hc, hl, he⟩

theorem leaves_openCall {purpose : Purpose} {k : Call} (hc : c.call? = some (card, purpose, k)) (hu : Untouched turns) :
    (openCall w a name card purpose k).Leaves w.content c turns h := by
  unfold openCall
  cases a.store.card? card with
  | none => exact leaves_fail hu _
  | some x => exact ⟨k, hc, Call.leaves_start hu, fun _ _ => Call.refused_of_untouched hu⟩

theorem leaves_begin (w : AppWorld) (m : Ambient) (name : Nat) (a : App) (c : Command) (hu : Untouched turns) :
    (begin w m name a c).2.Leaves w.content c (turns ++ [(a, (begin w m name a c).1)])
      (begin w m name a c).1.desk.doc := by
  have hsame : Untouched (turns ++ [(a, a)]) := hu.snoc ⟨rfl, rfl⟩
  have hok : Status.ok.code < 400 ∧ Status.created.code < 400 ∧ Status.noContent.code < 400 := by decide
  cases c with
  | health | contentTypes | propertyTypes | listTemplates | listCards => exact leaves_of_untouched hsame (.inr rfl)
  | putTemplate t =>
    simp only [begin]
    split
    · exact leaves_done hok.1
    · exact leaves_fail hsame _
  | calculate id k =>
    simp only [begin]
    split
    · exact hsame
    · exact leaves_fail hsame _
  | putMember id name => exact leaves_done hok.2.2
  | search text => exact hu.snoc ⟨rfl, rfl⟩
  | undo =>
    simp only [begin]
    cases a.desk.doc.undo m.now with
    | ok result => exact leaves_done hok.1
    | error e => exact leaves_fail hsame _
  | redo =>
    simp only [begin]
    cases a.desk.doc.redo m.now with
    | ok result => exact leaves_done hok.1
    | error e => exact leaves_fail hsame _
  | createCard title rootId => exact leaves_done hok.2.1
  | getCard card | previewCard card | setProperty card templateId value =>
    simp only [begin]
    split
    · exact hsame
    · exact leaves_fail hsame _
  | addContent card tag index => exact leaves_openCall rfl hsame
  | compose card lines index => exact leaves_openCall rfl hsame
  | updateContent card block value => exact leaves_openCall rfl hsame
  | deleteContent card block => exact leaves_openCall rfl hsame
  | moveContent card block index => exact leaves_openCall rfl hsame

/-- the card of a property that was written is there -/
theorem isSome_card?_of_written {x : Card} {templateId : String} {old new : Option Json} {description : String}
    (hc : h.commit m.now [⟨.setProperty x.id templateId old new, description⟩] = .ok h') :
    (h'.store.card? x.id).isSome := by
  obtain ⟨t, inverses, happ, -⟩ := (History.commit_eq_ok_iff (by simp)).1 hc
  obtain ⟨back, hm, -⟩ := applyGroup_singleton_eq_ok_iff.1 happ
  obtain ⟨y, hy, -⟩ := Change.apply_setProperty.1 (Mutation.apply_eq_ok_iff.1 hm).1
  exact History.retains_commit hc _ (Option.isSome_of_eq_some hy)

/-- **One turn of a request.** -/
theorem Leaves.step (w : AppWorld) (m : Ambient) (name : Nat) (a : App)
    (hl : p.Leaves w.content c turns a.desk.doc) :
    (p.step w m name a).2.Leaves w.content c (turns ++ [(a, (p.step w m name a).1)])
      (p.step w m name a).1.desk.doc := by
  cases p with
  | start c' =>
    obtain ⟨rfl, hu⟩ := hl
    exact leaves_begin w m name a c' hu
  | call t purpose =>
    obtain ⟨k, hcall, hleaves, hrefused⟩ := hl
    obtain ⟨htask, hacts⟩ := t.step_acts m a.desk
    let after : App := { a with desk := (t.step .plain m a.desk).1 }
    have hphase : step w m name a (.call t purpose) = (after, afterCall purpose (t.step .plain m a.desk).2) := rfl
    have hafter : k.Leaves w.content t.handle.card (turns ++ [(a, after)]) (t.step .plain m a.desk).2.phase ∧ _ :=
      hleaves.step hacts rfl rfl rfl
    rw [hphase, htask]
    refine leaves_afterCall hcall hafter.1 fun e he => ?_
    rcases hafter.2 e he with hp | hr
    · -- the call had failed before, and does nothing more
      have hstill : (t.step .plain m a.desk).1 = a.desk := by simp only [Task.step, hp]
      exact (hrefused e hp).same ⟨congrArg Desk.doc hstill, rfl⟩
    · exact hr
  | search text p =>
    have hsame : Untouched (turns ++ [(a, (step w m name a (.search text p)).1)]) := Untouched.snoc hl ⟨rfl, rfl⟩
    refine leaves_of_untouched hsame ?_
    simp only [step]
    split
    · exact .inr rfl
    · exact .inr rfl
    · exact .inl trivial
  | showBody x => exact Untouched.snoc hl ⟨rfl, rfl⟩
  | showProperties x contents => exact leaves_of_untouched (Untouched.snoc hl ⟨rfl, rfl⟩) (.inr rfl)
  | showPreview x => exact leaves_of_untouched (Untouched.snoc hl ⟨rfl, rfl⟩) (.inr rfl)
  | compute t k =>
    simp only [step]
    split
    · exact leaves_of_untouched (Untouched.snoc hl ⟨rfl, rfl⟩) (.inr rfl)
    · exact leaves_fail (Untouched.snoc hl ⟨rfl, rfl⟩) _
  | parseInput x templateId value =>
    simp only [step]
    split
    · exact Untouched.snoc hl ⟨rfl, rfl⟩
    · exact leaves_fail (Untouched.snoc hl ⟨rfl, rfl⟩) _
  | writeProperty x templateId v =>
    simp only [step]
    split
    · rename_i hc
      exact isSome_card?_of_written hc
    · exact leaves_fail (Untouched.snoc hl ⟨rfl, rfl⟩) _
  | readBack card =>
    obtain ⟨x, hx⟩ := Option.isSome_iff_exists.1 hl
    have hread : step w m name a (.readBack card) = (a, .done (.card x)) := by simp only [step, App.store, hx]
    have hok : Status.ok.code < 400 := by decide
    rw [hread]
    exact leaves_done hok
  | done reply => exact fun he => (hl he).same ⟨rfl, rfl⟩

end RequestPhase

/-! ## Traffic -/

namespace Traffic

/-- the turn of the request at a place, if the event is one: the interface before and after it -/
def Event.turn? (w : AppWorld) (place : Nat) (t : Traffic) : Event → Option (App × App)
  | arrive _ => none
  | step p m => if p = place ∧ p < t.requests.length then some (t.app, (t.take w (.step p m)).app) else none

def turnsAt (w : AppWorld) (place : Nat) (t : Traffic) : List Event → List (App × App)
  | [] => []
  | e :: es => (e.turn? w place t).toList ++ turnsAt w place (t.take w e) es

/-- these were the turns of the request at a place, which has none before it arrives -/
structure Traced (w : AppWorld) (place : Nat) (turns : List (App × App)) (t : Traffic) : Prop where
  waiting : t.requests[place]? = none → turns = []
  leaves : ∀ r, t.requests[place]? = some r → r.phase.Leaves w.content r.command turns t.history

variable {w : AppWorld} {place : Nat} {t : Traffic}

theorem traced_new : Traced w place [] new := ⟨fun _ => rfl, by simp [new]⟩

theorem Traced.take (ht : Traced w place turns t) (e : Event) :
    Traced w place (turns ++ (e.turn? w place t).toList) (t.take w e) := by
  cases e with
  | arrive c =>
    have hnone : turns ++ (Event.turn? w place t (.arrive c)).toList = turns := List.append_nil _
    rw [hnone]
    refine ⟨fun hplace => ht.waiting ?_, fun r hr => ?_⟩
    · rw [Traffic.take, List.getElem?_eq_none_iff, List.length_append] at hplace
      exact List.getElem?_eq_none (by omega)
    · rcases Places.getElem?_concat_eq_some_iff.1 hr with hr | ⟨hplace, rfl⟩
      · exact ht.leaves r hr
      · obtain rfl := ht.waiting (List.getElem?_eq_none (Nat.le_of_eq hplace.symm))
        exact ⟨rfl, by simp [Untouched]⟩
  | step p m =>
    cases hp : t.requests[p]? with
    | none =>
      have hidle : t.take w (.step p m) = t := by simp only [Traffic.take, hp]
      have hnone : Event.turn? w place t (.step p m) = none := by
        rw [Event.turn?, if_neg (by simpa using fun _ => hp)]
      rw [hidle, hnone]
      simpa using ht
    | some r =>
      have hlt : p < t.requests.length := (List.getElem?_eq_some_iff.1 hp).1
      have htake : t.take w (.step p m) = ⟨(r.phase.step w m p t.app).1,
          t.requests.set p { r with phase := (r.phase.step w m p t.app).2 }, (t.take w (.step p m)).log⟩ := by
        simp only [Traffic.take, hp]
      by_cases hplace : p = place
      · subst hplace
        have hturn : Event.turn? w p t (.step p m) = some (t.app, (r.phase.step w m p t.app).1) := by
          rw [Event.turn?, if_pos ⟨rfl, hlt⟩, htake]
        rw [hturn, htake]
        refine ⟨fun hnone => ?_, fun r' hr' => ?_⟩
        · rw [List.getElem?_set_self hlt] at hnone
          cases hnone
        · rw [List.getElem?_set_self hlt] at hr'
          cases hr'
          exact (ht.leaves r hp).step w m p t.app
      · have hnone : Event.turn? w place t (.step p m) = none := by
          rw [Event.turn?, if_neg fun h => hplace h.1]
        rw [hnone, htake]
        simp only [Option.toList_none, List.append_nil]
        refine ⟨fun hnone => ht.waiting ?_, fun r' hr' => ?_⟩
        · rwa [List.getElem?_set_ne hplace] at hnone
        · rw [List.getElem?_set_ne hplace] at hr'
          exact (ht.leaves r' hr').mono (RequestPhase.retains_acts (RequestPhase.step_acts w m p t.app r.phase))

theorem Traced.run (ht : Traced w place turns t) (es : List Event) :
    Traced w place (turns ++ turnsAt w place t es) (t.run w es) := by
  induction es generalizing t turns with
  | nil =>
    rw [turnsAt, List.append_nil]
    exact ht
  | cons e es ih =>
    rw [turnsAt, ← List.append_assoc]
    exact ih (ht.take e)

/-- **Errors leave no trace.** In whatever order requests arrive and take their steps, one that is answered with an
error has changed nothing at any of its turns, unless it is a composition that saved blocks before the one at which it
failed. A request that is not routed is answered at once, and an order that is refused leaves the store as it was. -/
theorem errors_leave_no_trace (w : AppWorld) (es : List Event) :
    (∀ (place : Nat) (r : Asked) (reply : Reply), (new.run w es).requests[place]? = some r → r.phase = .done reply →
      400 ≤ reply.status.code → r.command.Refused w.content (turnsAt w place new es)) ∧
    (∀ (req : Request) (status : Status) (supply : Nat → Ambient) (now place : Nat) (s : Service),
      req.route = .error status →
        Service.turn w supply now place s (Service.arrive req) = (s, .done (Service.respond req (.bare status)))) ∧
    ∀ (s : Store) (card : Uuid) (expected order : List Uuid) (e : StoreError),
      (s.swapOrderInPlace card expected order).2 = .error e → (s.swapOrderInPlace card expected order).1 = s := by
  refine ⟨fun place r reply hr hdone herror => ?_, fun req status supply now place s hroute => ?_,
    fun s card expected order e herror => ?_⟩
  · have hleaves := (traced_new.run es).leaves r hr
    rw [hdone] at hleaves
    exact hleaves herror
  · have harrive : Service.arrive req = ⟨req, .done (.bare status)⟩ := by rw [Service.arrive, hroute]
    rw [harrive]
    rfl
  · rcases s.swapOrderInPlace_cases card expected order with ⟨c, -, -, -, hswap⟩ | ⟨-, e', hswap⟩
    · rw [hswap] at herror
      cases herror
    · rw [hswap]

/-- two lines entered on a card; whenever the second is about to be written, the first is undone or redone -/
def interrupted : List Event :=
  [.arrive (.createCard none none), .step 0 ⟨0, ⟨1⟩, ⟨900⟩⟩, .arrive (.compose ⟨1⟩ ["one", "two"] none),
    .arrive .undo, .arrive .redo, .arrive .undo, .arrive .redo] ++
  [1, 1, 1, 1, 1, 1, 1, 1, 1, 2, 1, 1, 3, 1, 1, 4, 1, 1, 5, 1].mapIdx fun k place =>
    .step place ⟨k, ⟨.ofNat 128 (k + 2)⟩, .nil⟩

theorem interrupted_keeps_first_line :
    ∃ r reply, (new.run (.ofConfig .default) interrupted).requests[1]? = some r ∧ r.phase = .done reply ∧
      reply.status = .conflict ∧ r.command = .compose ⟨1⟩ ["one", "two"] none ∧
      r.command.Refused (AppWorld.ofConfig .default).content (turnsAt (.ofConfig .default) 1 new interrupted) ∧
      (new.run (.ofConfig .default) interrupted).history.orderOf ⟨1⟩ = [⟨3⟩] := by
  have hr : (new.run (.ofConfig .default) interrupted).requests[1]? = some ⟨.compose ⟨1⟩ ["one", "two"] none,
      .fail (.ofCall (.history (.store (.staleOrder ⟨1⟩))))⟩ := rfl
  have hrefused := (errors_leave_no_trace (.ofConfig .default) interrupted).1 1 _ _ hr rfl (by decide)
  exact ⟨_, _, hr, rfl, rfl, rfl, hrefused, rfl⟩

end Traffic

end Corkboard
