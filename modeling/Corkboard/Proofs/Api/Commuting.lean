/-
Requests that write to different regions.

Two requests that write to different cards, or to one card where one of them writes a property and the other its
contents or another property, may change places.

- `independent_requests_commute`: if both succeed in one order, they succeed in the other, with the same store, and in
  either order an undo takes back the later one and nothing else, save that a block it patched keeps the time of the
  undo.

A request that runs by itself sees its region only, so that on two states which are the same inside of the region it
stands alike after every step (`RequestPhase.Twin.step`, `twin_run`). What it leaves in the history is one group
(`Command.Commits`).
-/
import Corkboard.Proofs.Api.Counts
import Corkboard.Proofs.Api.Frames
import Corkboard.Proofs.Desk.Twins

namespace Corkboard

/-! ## Requests on two states -/

/-- two states of the interface that a request of the region cannot tell apart -/
structure App.Twin (r : Region) (a b : App) : Prop where
  same : r.Same a.store b.store
  board : a.board = b.board
  lock : ∀ card, r = .body card → (a.desk.holder ⟨card, 0⟩ = none ↔ b.desk.holder ⟨card, 0⟩ = none)

/-- the phases of one request on two states -/
inductive RequestPhase.Twin (r : Region) (s u : Store) : RequestPhase → RequestPhase → Prop
  | start {c : Command} : c.region? = some r → Twin r s u (.start c) (.start c)
  | call {card name name' p q purpose} : r = .body card → Phase.Twin card s u p q →
    Twin r s u (.call ⟨⟨card, 0⟩, name, p⟩ purpose) (.call ⟨⟨card, 0⟩, name', q⟩ purpose)
  | parsing {c c' : Card} {templateId value} : r = .property c.id templateId → c'.id = c.id →
    Twin r s u (.parseInput c templateId value) (.parseInput c' templateId value)
  | writing {c c' : Card} {templateId v} : r = .property c.id templateId → c'.id = c.id →
    Twin r s u (.writeProperty c templateId v) (.writeProperty c' templateId v)
  | readBack {card templateId} : r = .property card templateId → Twin r s u (.readBack card) (.readBack card)
  | done {reply reply' : Reply} : (∀ e, reply' ≠ .failed e) → Twin r s u (.done reply) (.done reply')

namespace RequestPhase

variable {w : AppWorld} {m : Ambient} {name name' : Nat} {a b : App} {r : Region} {p q : RequestPhase}

/-- a step of a request on both states: it fails on the first, or the request stands alike afterwards -/
def Follows (w : AppWorld) (m : Ambient) (r : Region) (name name' : Nat) (a b : App) (p q : RequestPhase) : Prop :=
  (∃ e, (p.step w m name a).2 = fail e) ∨
  (App.Twin r (p.step w m name a).1 (q.step w m name' b).1 ∧
    RequestPhase.Twin r (p.step w m name a).1.store (q.step w m name' b).1.store (p.step w m name a).2
      (q.step w m name' b).2)

theorem follows_openCall {card : Uuid} (h : App.Twin (.body card) a b) (purpose : Purpose) (k : Call) :
    (∃ e, openCall w a name card purpose k = fail e) ∨
      RequestPhase.Twin (.body card) a.store b.store (openCall w a name card purpose k)
        (openCall w b name' card purpose k) := by
  cases hc : a.store.card? card with
  | none => exact .inl ⟨_, by simp only [openCall, hc]; rfl⟩
  | some c =>
    obtain ⟨c', hc', -⟩ := h.same.card? hc
    refine .inr ?_
    simp only [openCall, hc, hc']
    exact .call rfl (.bare (Phase.bare_start _ _))

theorem follows_start {c : Command} (h : App.Twin r a b) (hr : c.region? = some r) :
    Follows w m r name name' a b (.start c) (.start c) := by
  cases c with
  | addContent card tag index =>
    cases hr
    exact (follows_openCall h _ _).imp id fun ht => ⟨h, ht⟩
  | compose card lines index =>
    cases hr
    exact (follows_openCall h _ _).imp id fun ht => ⟨h, ht⟩
  | updateContent card block value =>
    cases hr
    exact (follows_openCall h _ _).imp id fun ht => ⟨h, ht⟩
  | deleteContent card block =>
    cases hr
    exact (follows_openCall h _ _).imp id fun ht => ⟨h, ht⟩
  | moveContent card block index =>
    cases hr
    exact (follows_openCall h _ _).imp id fun ht => ⟨h, ht⟩
  | setProperty card templateId value =>
    cases hr
    cases hc : a.store.card? card with
    | none => exact .inl ⟨_, by simp only [step, begin, hc]; rfl⟩
    | some c =>
      obtain ⟨c', hc', hid⟩ := h.same.property_card? hc
      refine .inr ?_
      simp only [step, begin, hc, hc']
      exact ⟨h, .parsing (by rw [Store.id_of_card? hc]) hid⟩
  | _ => cases hr

theorem ofResult_ne_failed (purpose : Purpose) (answer : CallAnswer) (e : ApiError) :
    ofResult purpose (.ok answer) ≠ .failed e := by
  intro he
  obtain ⟨z, hz, -⟩ := ofResult_eq_failed he
  cases hz

theorem twin_afterCall {card : Uuid} {purpose : Purpose} {s u : Store} {p q : Phase} (hr : r = .body card)
    (hp : Phase.Twin card s u p q) (hok : ∀ x, p ≠ .done (.error x)) :
    RequestPhase.Twin r s u (afterCall purpose ⟨⟨card, 0⟩, name, p⟩) (afterCall purpose ⟨⟨card, 0⟩, name', q⟩) := by
  cases hp with
  | bare hb =>
    cases p with
    | done result =>
      cases result with
      | error x => exact absurd rfl (hok x)
      | ok answer => exact .done (ofResult_ne_failed purpose answer)
    | _ => exact .call hr (.bare hb)
  | making hc hc' => exact .call hr (.making hc hc')
  | replacing hb => exact .call hr (.replacing hb)
  | waiting he hready => exact .call hr (.waiting he hready)
  | reading he hready => exact .call hr (.reading he hready)
  | writing he hready hc hc' => exact .call hr (.writing he hready hc hc')

theorem follows_call {card : Uuid} {purpose : Purpose} {own own' : Nat} {p q : Phase} (h : App.Twin (.body card) a b)
    (hp : Phase.Twin card a.store b.store p q) (hfresh : b.store.block? m.id = none) :
    Follows w m (.body card) name name' a b (.call ⟨⟨card, 0⟩, own, p⟩ purpose)
      (.call ⟨⟨card, 0⟩, own', q⟩ purpose) := by
  have hdesk : Desk.Twin ⟨card, 0⟩ a.desk b.desk p q := ⟨h.same, h.lock card rfl, hp⟩
  have hstep : ∀ (c : App) (n k : Nat) (p : Phase), (step w m n c (.call ⟨⟨card, 0⟩, k, p⟩ purpose)).2 =
      afterCall purpose ⟨⟨card, 0⟩, k, (Task.step .plain m c.desk ⟨⟨card, 0⟩, k, p⟩).2.phase⟩ := fun c n k p =>
    congrArg (afterCall purpose) (Task.step_acts m c.desk ⟨⟨card, 0⟩, k, p⟩).1
  by_cases hfail : ∃ x, (Task.step .plain m a.desk ⟨⟨card, 0⟩, own, p⟩).2.phase = .done (.error x)
  · obtain ⟨x, hx⟩ := hfail
    exact .inl ⟨.ofCall x, by rw [hstep, hx]; rfl⟩
  · have hfollows : Task.Follows m ⟨card, 0⟩ a.desk b.desk own own' p q := Task.follows hdesk hfresh
    have hafter := hfollows.resolve_left hfail
    refine .inr ⟨⟨hafter.same, h.board, fun card' hcard => ?_⟩, ?_⟩
    · cases hcard
      exact hafter.lock
    · rw [hstep, hstep]
      exact twin_afterCall rfl hafter.phases fun x hx => hfail ⟨x, hx⟩

theorem follows_parsing {c c' : Card} {templateId value : String} (h : App.Twin (.property c.id templateId) a b)
    (hid : c'.id = c.id) : Follows w m (.property c.id templateId) name name' a b (.parseInput c templateId value)
      (.parseInput c' templateId value) := by
  cases hread : readInput w a.board templateId value with
  | error e => exact .inl ⟨e, by simp only [step, hread]⟩
  | ok v =>
    refine .inr ?_
    simp only [step, ← h.board, hread]
    exact ⟨h, .writing rfl hid⟩

theorem follows_writing {c c' : Card} {templateId : String} {v : Option Json}
    (h : App.Twin (.property c.id templateId) a b) (hid : c'.id = c.id) :
    Follows w m (.property c.id templateId) name name' a b (.writeProperty c templateId v)
      (.writeProperty c' templateId v) := by
  cases hcommit : a.desk.doc.commit m.now
      [⟨.setProperty c.id templateId (c.property? templateId) v, "edit property"⟩] with
  | error e => exact .inl ⟨.ofHistory e, by simp only [step, hcommit]⟩
  | ok k =>
    obtain ⟨t, inverses, hg, rfl⟩ := (History.commit_eq_ok_iff (by simp)).1 hcommit
    obtain ⟨back, hm, -⟩ := applyGroup_singleton_eq_ok_iff.1 hg
    obtain ⟨x, hx, rfl, -⟩ := Change.apply_setProperty.1 (Mutation.apply_eq_ok_iff.1 hm).1
    obtain ⟨x', hx', -⟩ := h.same.property_card? hx
    have hwrite : Mutation.apply m.now b.store
        ⟨.setProperty c'.id templateId (c'.property? templateId) v, "edit property"⟩ = .ok (_, ⟨_, _⟩) :=
      Mutation.apply_eq_ok_iff.2 ⟨Change.apply_setProperty.2 ⟨x', hid ▸ hx', rfl, rfl⟩, rfl⟩
    have hcommit' := (History.commit_eq_ok_iff (h := b.desk.doc) (by simp)).2
      ⟨_, _, applyGroup_singleton_eq_ok_iff.2 ⟨_, hwrite, rfl⟩, rfl⟩
    refine .inr ?_
    simp only [step, hcommit, hcommit']
    refine ⟨⟨Region.Same.putProperty hx hx' v, h.board, fun _ hr => by cases hr⟩, ?_⟩
    rw [hid]
    exact .readBack rfl

theorem follows_readBack {card : Uuid} {templateId : String} (h : App.Twin (.property card templateId) a b) :
    Follows w m (.property card templateId) name name' a b (.readBack card) (.readBack card) := by
  cases hc : a.store.card? card with
  | none => exact .inl ⟨_, by simp only [step, hc]; rfl⟩
  | some c =>
    obtain ⟨c', hc', -⟩ := h.same.property_card? hc
    refine .inr ?_
    simp only [step, hc, hc']
    exact ⟨h, .done fun e he => by cases he⟩

/-- **One step on two states.** It fails on the first, or the request stands alike on both afterwards. -/
theorem follows (h : App.Twin r a b) (hp : RequestPhase.Twin r a.store b.store p q)
    (hfresh : b.store.block? m.id = none) :
    Follows w m r name name' a b p q := by
  cases hp with
  | start hr => exact follows_start h hr
  | call hr hp =>
    subst hr
    exact follows_call h hp hfresh
  | parsing hr hid =>
    subst hr
    exact follows_parsing h hid
  | writing hr hid =>
    subst hr
    exact follows_writing h hid
  | readBack hr =>
    subst hr
    exact follows_readBack h
  | done hok => exact .inr ⟨h, .done hok⟩

end RequestPhase

namespace Traffic

variable {w : AppWorld} {t t' : Traffic} {place place' : Nat} {x y : Asked} {r : Region} {L : Lineage}
    {used : List Uuid}

/-- the request at a place was answered, and not with an error -/
def Succeeded (t : Traffic) (place : Nat) : Prop :=
  ∃ x reply, t.requests[place]? = some x ∧ x.phase = .done reply ∧ ∀ e, reply ≠ .failed e

/-- an identifier that was not used yet names no block -/
theorem Kept.block?_eq_none (hk : Kept used L t) {id : Uuid} (hid : id ∉ used) : t.app.store.block? id = none := by
  cases hb : t.app.store.block? id with
  | none => rfl
  | some b =>
    have hgiven := hk.keeps.present_holds.blocks hb
    rw [hk.within.blocks hid] at hgiven
    cases hgiven

theorem not_succeeded_of_failed (w : AppWorld) {e : ApiError} (hx : t.requests[place]? = some x)
    (hp : x.phase = .fail e) (ms : List Ambient) : ¬ (t.run w (ms.map (.step place))).Succeeded place := by
  intro hs
  have hstep : ∀ (m : Ambient) (a : App) (p : RequestPhase), p = .fail e → (p.step w m place a).2 = .fail e := by
    rintro m a p rfl
    rfl
  obtain ⟨x', hx', -, hfail⟩ := steps_keep hstep hx hp ms
  obtain ⟨x'', reply, hx'', hdone, hok⟩ := hs
  cases hx'.symm.trans hx''
  rw [hfail] at hdone
  cases hdone
  exact hok e rfl

/-- **Requests on two states.** A request that succeeds by itself on the first succeeds on the second, and leaves the
same in its region. -/
theorem twin_run (hx : t.requests[place]? = some x) (hy : t'.requests[place']? = some y) (ha : App.Twin r t.app t'.app)
    (hp : RequestPhase.Twin r t.app.store t'.app.store x.phase y.phase) (hk : Kept used L t') (ms : List Ambient)
    (hnodup : (ms.map Ambient.id).Nodup) (hfresh : ∀ m ∈ ms, m.id ∉ used)
    (hs : (t.run w (ms.map (.step place))).Succeeded place) :
    (t'.run w (ms.map (.step place'))).Succeeded place' ∧
      r.Same (t.run w (ms.map (.step place))).app.store (t'.run w (ms.map (.step place'))).app.store := by
  induction ms generalizing t t' x y used L with
  | nil =>
    obtain ⟨x', reply, hx', hdone, -⟩ := hs
    cases hx.symm.trans hx'
    rw [hdone] at hp
    generalize hq : y.phase = q at hp
    cases hp with
    | done hok => exact ⟨⟨y, _, hy, hq, hok⟩, ha.same⟩
  | cons m ms ih =>
    obtain ⟨hnot, hnodup⟩ := List.nodup_cons.1 hnodup
    have hm : m.id ∉ used := hfresh m List.mem_cons_self
    have hnext := getElem?_take_step w hx m
    rcases RequestPhase.follows ha hp (hk.block?_eq_none hm) with ⟨e, hfail⟩ | ⟨ha', hp'⟩
    · exact absurd hs (not_succeeded_of_failed w hnext hfail ms)
    · obtain ⟨L', hk'⟩ := hk.take (w := w) (.step place' m) (by rintro _ ⟨⟩; exact hm)
      rw [← (take_step w hx m).1, ← (take_step w hy m).1] at ha' hp'
      refine ih hnext (getElem?_take_step w hy m) ha' hp' hk' hnodup (fun m' hm' hmem => ?_) hs
      rcases List.mem_cons.1 hmem with he | hmem
      · exact hnot (he ▸ List.mem_map_of_mem hm')
      · exact hfresh m' (List.mem_cons_of_mem _ hm') hmem

end Traffic

/-! ## What a request leaves in the history -/

namespace Command

def patched? : Command → Option Uuid
  | updateContent _ block _ => some block
  | _ => none

/-- a store to which the effect of a request was undone: as it was, but for the time at which a patched block was
changed last -/
def Restored (now : Int) (s s' : Store) (c : Command) : Prop :=
  match c.patched? with
  | some block => ∃ x, s.block? block = some x ∧ s' = s.putBlock { x with updatedAt := now }
  | none => s' = s

/-- the groups that a request may commit: a patch replaces its block, and no other request replaces one -/
def Makes (group : List Mutation) (c : Command) : Prop :=
  match c.patched? with
  | some block => ∃ new old description, group = [⟨.updateBlock new old, description⟩] ∧ new.id = block
  | none => ∀ m ∈ group, m.change.Unstamping

/-- one group of the request, which can be taken back, leads from one history to the other -/
def Commits (h h' : History) (c : Command) : Prop :=
  ∃ now group, group ≠ [] ∧ h.commit now group = .ok h' ∧ Leads group h.store h'.store ∧ c.Makes group

variable {c : Command} {h h' : History}

/-- **An undo takes the request back.** -/
theorem Commits.undo (hc : c.Commits h h') (now : Int) : ∃ h'' description, h'.undo now = .ok (h'', description) ∧
    h''.undos = h.undos ∧ c.Restored now h.store h''.store := by
  obtain ⟨earlier, group, hne, hcommit, hleads, hmakes⟩ := hc
  obtain ⟨t, inverses, hg, rfl⟩ := (History.commit_eq_ok_iff hne).1 hcommit
  obtain ⟨t', inverses', hg', -, hback⟩ := hleads.apply earlier
  cases hg.symm.trans hg'
  obtain ⟨s, again, hundo, -, -⟩ := hback.apply now
  refine ⟨_, _, History.undo_eq_ok_iff.2 ⟨_, _, s, again, rfl, hundo, rfl, rfl⟩, rfl, ?_⟩
  unfold Makes at hmakes
  unfold Restored
  cases hp : c.patched? with
  | none =>
    simp only [hp] at hmakes ⊢
    exact eq_of_taken_back hmakes hg hundo
  | some block =>
    simp only [hp] at hmakes ⊢
    obtain ⟨new, old, description, rfl, rfl⟩ := hmakes
    exact putBlock_of_taken_back hg hundo

theorem makes_of_unstamping {group : List Mutation} (hp : c.patched? = none) (hg : ∀ m ∈ group, m.change.Unstamping) :
    c.Makes group := by
  unfold Makes
  simpa only [hp] using hg

end Command

/-- a block is rewritten by a patch, and by nothing else -/
def Phase.Meant (c : Command) : Phase → Prop
  | fetching id _ _ => c.patched? = some id
  | replacing new _ => c.patched? = some new.id
  | done _ => True
  | _ => c.patched? = none

def RequestPhase.Meant (c : Command) : RequestPhase → Prop
  | call t _ => t.phase.Meant c
  | _ => True

section Meant

variable {c : Command} {card : Uuid} {h h' : History} {m : Ambient} {n : Nat}

theorem Phase.meant_start {k : Call} {purpose : Purpose} (r : ContentRegistry)
    (hc : c.call? = some (card, purpose, k)) : (Phase.start r k).Meant c := by
  cases c with
  | addContent card tag index =>
    cases hc
    simp only [start]
    cases r.get? tag <;> first | exact rfl | trivial
  | compose card lines index =>
    cases hc
    simp only [start]
    cases Editor.enterLines r .new lines <;> first | exact rfl | trivial
  | updateContent card block value =>
    cases hc
    exact rfl
  | deleteContent card block =>
    cases hc
    exact rfl
  | moveContent card block index =>
    cases hc
    exact rfl
  | _ => cases hc

theorem Phase.Meant.next {p p' : Phase} (hp : p.Meant c) (hn : Phase.Next h m card p p') : p'.Meant c := by
  cases hn with
  | fetched hb _ =>
    have hid : c.patched? = some _ := hp
    rw [← Store.id_of_block? hb] at hid
    exact hid
  | @noted b sequel =>
    cases sequel with
    | answer => trivial
    | compose saved drafts index => cases drafts <;> first | exact hp | trivial
  | ended => trivial
  | failed _ => trivial
  | _ => exact hp

/-- before the write of an edit a call has committed nothing, unless it is a composition -/
theorem OrderEdit.Counts.eq_zero {k : Call} {edit : OrderEdit} {sequel : Sequel} (hk : ¬ k.Composes)
    (hc : edit.Counts k n sequel) : n = 0 := by
  cases edit with
  | insert b index =>
    cases sequel with
    | answer => exact hc.2
    | compose saved drafts index => exact (hk hc.1).elim
  | remove b => exact hc.2
  | move id index => exact hc.2

/-- no edit replaces a block -/
theorem OrderEdit.unstamping_group {e : OrderEdit} {read : Card} {group : List Mutation} {order : List Uuid}
    (hg : e.group read = .ok (group, order)) : ∀ m ∈ group, m.change.Unstamping := by
  obtain ⟨-, rfl⟩ := OrderEdit.group_eq_ok_iff.1 hg
  cases e <;> simp [OrderEdit.changes, Change.Unstamping]

end Meant

namespace RequestPhase

/-- how far a request is that runs by itself from a history: up to its write, or after it -/
structure Alone (c : Command) (h₀ h : History) (p : RequestPhase) : Prop where
  meant : p.Meant c
  wrote : p.Counts c 0 ∧ h = h₀ ∨ p.Counts c 1 ∧ c.Commits h₀ h

variable {c : Command} {r : Region} {h₀ h h' : History} {m : Ambient} {p p' : RequestPhase}

theorem meant_afterCall {t : Task} {purpose : Purpose} (ht : t.phase.Meant c) : (afterCall purpose t).Meant c := by
  unfold afterCall
  split
  · trivial
  · exact ht

theorem meant_calm (hp : p.Counts c 0 ∨ p.Counts c 1) (hc : Calm h p p') : p'.Meant c := by
  cases hc with
  | @opened c' _ _ _ _ _ hcall _ =>
    have hstart : c' = c := by
      rcases hp with hp | hp
      · exact hp.1
      · exact hp.1
    exact Phase.meant_start _ (hstart ▸ hcall)
  | began _ hr => cases p' <;> trivial
  | went _ hr => cases p' <;> first | trivial | (rcases hr with hr | hr <;> cases hr)
  | _ => trivial

theorem patched?_of_setsProperty (hc : c.SetsProperty) : c.patched? = none := by
  cases c <;> first | rfl | exact hc.elim

theorem Alone.quiet (ha : Alone c h₀ h p) (hmeant : p'.Meant c) (hcounts : ∀ n, p.Counts c n → p'.Counts c n) :
    Alone c h₀ h p' :=
  ⟨hmeant, ha.wrote.imp (fun hw => ⟨hcounts 0 hw.1, hw.2⟩) fun hw => ⟨hcounts 1 hw.1, hw.2⟩⟩

theorem Alone.written {group : List Mutation} (ha : Alone c h₀ h p) (hzero : ∀ n, p.Counts c n → n = 0)
    (hmeant : p'.Meant c) (hcounts : p'.Counts c 1) (hne : group ≠ []) (hcommit : h.commit m.now group = .ok h')
    (hr : ∀ t inverses, applyGroup m.now h₀.store group = .ok (t, inverses) → Retraceable m.now h₀.store group)
    (hmakes : c.Makes group) : Alone c h₀ h' p' := by
  rcases ha.wrote with ⟨-, rfl⟩ | ⟨hone, -⟩
  · obtain ⟨t, inverses, hg, rfl⟩ := (History.commit_eq_ok_iff hne).1 hcommit
    exact ⟨hmeant, .inr ⟨hcounts, m.now, group, hne, hcommit, leads_of_retraceable hg (hr t inverses hg), hmakes⟩⟩
  · cases hzero 1 hone

/-- **One step of a request by itself**, on a sound store. -/
theorem Alone.step (ha : Alone c h₀ h p) (hs : h₀.store.Sound) (hr : c.region? = some r)
    (hone : ∀ card lines index, c ≠ .compose card lines index) (hacts : Acts m h p h' p') : Alone c h₀ h' p' := by
  have hkind : ∀ {card purpose k}, c.call? = some (card, purpose, k) → ¬ k.Composes := by
    intro card purpose k hcall hk
    cases c <;> cases hcall <;> first | exact hone _ _ _ rfl | exact hk
  cases hacts with
  | calm hc => exact ha.quiet (meant_calm (ha.wrote.imp And.left And.left) hc) fun n hn => hn.calm hc
  | @called t purpose _ _ hstep =>
    have hmeant : t.phase.Meant c := ha.meant
    obtain ⟨handle, name, phase⟩ := t
    cases hstep with
    | quiet hn =>
      refine ha.quiet (meant_afterCall (hmeant.next hn)) fun n hcount => ?_
      obtain ⟨card, k, hcall, hphase⟩ := hcount
      exact counts_afterCall hcall (hphase.next hn)
    | replaced hcommit =>
      have hcount : ∃ n, (call ⟨handle, name, _⟩ purpose).Counts c n :=
        ha.wrote.elim (fun hw => ⟨0, hw.1⟩) fun hw => ⟨1, hw.1⟩
      obtain ⟨n, card, k, hcall, hk, -⟩ := hcount
      refine ha.written (fun n hn => ?_) trivial (counts_afterCall hcall ⟨hk, rfl⟩) (by simp) hcommit
        (fun _ _ _ => ⟨trivial, fun _ _ _ => trivial⟩) ?_
      · obtain ⟨_, _, -, -, hzero⟩ := hn
        exact hzero
      · have hp : c.patched? = some _ := hmeant
        unfold Command.Makes
        simp only [hp]
        exact ⟨_, _, _, rfl, rfl⟩
    | @edited edit sequel attempt read group order _ hg hcommit =>
      have hcount : ∃ n, (call ⟨handle, name, .writing edit sequel attempt read⟩ purpose).Counts c n :=
        ha.wrote.elim (fun hw => ⟨0, hw.1⟩) fun hw => ⟨1, hw.1⟩
      obtain ⟨n, card, k, hcall, hphase⟩ := hcount
      have hzero : n = 0 := OrderEdit.Counts.eq_zero (hkind hcall) hphase
      subst hzero
      refine ha.written (fun n hn => ?_) (meant_afterCall ?_)
        (counts_afterCall hcall (Phase.counts_afterEdit hphase order)) (OrderEdit.group_ne_nil hg) hcommit
        (fun t inverses happ => OrderEdit.retraceable_group hs hg happ) ?_
      · obtain ⟨_, _, hcall', hphase'⟩ := hn
        exact OrderEdit.Counts.eq_zero (hkind hcall') hphase'
      · cases edit <;> first | exact hmeant | trivial
      · exact Command.makes_of_unstamping hmeant (OrderEdit.unstamping_group hg)
  | undone _ =>
    obtain rfl : Command.undo = c := ha.wrote.elim (fun hw => hw.1.1) fun hw => hw.1.1
    cases hr
  | redone _ =>
    obtain rfl : Command.redo = c := ha.wrote.elim (fun hw => hw.1.1) fun hw => hw.1.1
    cases hr
  | created =>
    obtain rfl : Command.createCard _ _ = c := ha.wrote.elim (fun hw => hw.1.1) fun hw => hw.1.1
    cases hr
  | wrote hcommit =>
    have hset : c.SetsProperty := ha.wrote.elim (fun hw => hw.1.1) fun hw => hw.1.1
    refine ha.written (fun n hn => hn.2) trivial ⟨hset, rfl⟩ (by simp) hcommit
      (fun _ _ _ => ⟨trivial, fun _ _ _ => trivial⟩) ?_
    exact Command.makes_of_unstamping (patched?_of_setsProperty hset) (by simp [Change.Unstamping])

end RequestPhase

/-! ## Two requests -/

namespace RequestPhase

/-- a request takes or leaves the lock of its own card only -/
theorem holder_step {c : Command} {r : Region} (w : AppWorld) (m : Ambient) (name : Nat) (a : App) {p : RequestPhase}
    (hr : c.region? = some r) (ho : p.Of c) {card : Uuid} (hne : r ≠ .body card) :
    (p.step w m name a).1.desk.holder ⟨card, 0⟩ = a.desk.holder ⟨card, 0⟩ := by
  cases p with
  | start c' =>
    obtain rfl : c' = c := ho
    cases c' with
    | setProperty card templateId value =>
      simp only [step, begin]
      split <;> rfl
    | addContent | compose | updateContent | deleteContent | moveContent => rfl
    | _ => cases hr
  | call t purpose =>
    obtain ⟨⟨k, hcall⟩, -⟩ := ho
    obtain rfl : r = .body t.handle.card := Option.some.inj (hr.symm.trans (region?_of_call hcall))
    exact Task.holder_step m a.desk t fun he => hne (by rw [← he])
  | compute t k =>
    simp only [step]
    split <;> rfl
  | parseInput x templateId value =>
    simp only [step]
    split <;> rfl
  | writeProperty x templateId v =>
    simp only [step]
    split <;> rfl
  | readBack card =>
    simp only [step]
    split <;> rfl
  | _ => rfl

end RequestPhase

namespace App

variable {q r : Region} {a b : App}

/-- what a request of one region does cannot be told from another region -/
theorem Within.twin (h : a.Within r b) (hne : q ≠ r)
    (hl : ∀ card, q = .body card → b.desk.holder ⟨card, 0⟩ = a.desk.holder ⟨card, 0⟩) : App.Twin q a b :=
  ⟨h.store.same hne, h.board.symm, fun card hq => by rw [hl card hq]⟩

theorem Twin.symm (h : App.Twin q a b) : App.Twin q b a :=
  ⟨h.same.symm, h.board.symm, fun card hq => (h.lock card hq).symm⟩

end App

namespace Traffic

variable {w : AppWorld} {t t' : Traffic} {c c' : Command} {r r' : Region} {L : Lineage} {used : List Uuid}
  {ms ms' : List Ambient}

/-- a request by itself, seen from another region -/
theorem twin_after_serve (t : Traffic) (hr : c.region? = some r) (hne : r' ≠ r) (ms : List Ambient) :
    App.Twin r' t.app (t.serve w c ms).app := by
  refine (within_serve w t hr ms).twin hne fun card hq => ?_
  have hother : r ≠ .body card := fun he => hne (hq.trans he.symm)
  have hstep : ∀ (m : Ambient) (a : App) (p : RequestPhase),
      (p.Of c ∧ a.desk.holder ⟨card, 0⟩ = t.app.desk.holder ⟨card, 0⟩) →
      (p.step w m t.requests.length a).2.Of c ∧
      (p.step w m t.requests.length a).1.desk.holder ⟨card, 0⟩ = t.app.desk.holder ⟨card, 0⟩ := by
    rintro m a p ⟨ho, hl⟩
    exact ⟨ho.acts (RequestPhase.step_acts w m _ a p), (RequestPhase.holder_step w m _ a hr ho hother).trans hl⟩
  obtain ⟨q, -, -, -, hl⟩ := serve_keeps hstep ⟨rfl, rfl⟩ ms
  exact hl

theorem twin_serve (ha : App.Twin r t.app t'.app) (hr : c.region? = some r) (hk : Kept used L t')
    (hnodup : (ms.map Ambient.id).Nodup) (hfresh : ∀ m ∈ ms, m.id ∉ used)
    (hs : (t.serve w c ms).Succeeded t.requests.length) : (t'.serve w c ms).Succeeded t'.requests.length ∧
      r.Same (t.serve w c ms).app.store (t'.serve w c ms).app.store := by
  have harrived : ∀ u : Traffic, (u.take w (.arrive c)).requests[u.requests.length]? = some ⟨c, .start c⟩ := fun u => by
    simp [Traffic.take]
  obtain ⟨L', hk'⟩ := hk.take (w := w) (.arrive c) (fun id hid => by cases hid)
  exact twin_run (harrived t) (harrived t') ha (.start hr) hk' ms hnodup hfresh hs

theorem kept_serve (hk : Kept used L t) (c : Command) (hnodup : (ms.map Ambient.id).Nodup)
    (hfresh : ∀ m ∈ ms, m.id ∉ used) : ∃ used' L', Kept used' L' (t.serve w c ms) ∧
      ∀ id ∈ used', id ∈ used ∨ id ∈ ms.map Ambient.id := by
  have hids : (Event.arrive c :: ms.map (.step t.requests.length)).filterMap Event.id? = ms.map Ambient.id := by
    have hsteps : ms.filterMap (some ∘ Ambient.id) = ms.map Ambient.id := by rw [List.filterMap_eq_map]
    rw [ids_cons, List.filterMap_map]
    exact hsteps
  obtain ⟨used', L', hk', hused⟩ := hk.run_ids (w := w) (.arrive c :: ms.map (.step t.requests.length))
    (by rw [Fresh, hids]; exact hnodup) (by rw [hids]; simpa using hfresh)
  exact ⟨used', L', hk', hids ▸ hused⟩

/-- a request that succeeds by itself leaves one group -/
theorem commits_of_serve (hs : t.app.store.Sound) (hr : c.region? = some r)
    (hone : ∀ card lines index, c ≠ .compose card lines index)
    (hsucc : (t.serve w c ms).Succeeded t.requests.length) : c.Commits t.history (t.serve w c ms).history := by
  have hstep : ∀ (m : Ambient) (a : App) (p : RequestPhase), RequestPhase.Alone c t.history a.desk.doc p →
      RequestPhase.Alone c t.history (p.step w m t.requests.length a).1.desk.doc (p.step w m t.requests.length a).2 :=
    fun m a p ha => ha.step hs hr hone (RequestPhase.step_acts w m _ a p)
  obtain ⟨q, hq, -, halone⟩ := serve_keeps (t := t) (w := w) hstep ⟨trivial, .inl ⟨⟨rfl, rfl⟩, rfl⟩⟩ ms
  obtain ⟨q', reply, hq', hdone, hok⟩ := hsucc
  cases hq.symm.trans hq'
  rcases halone.wrote with ⟨hzero, -⟩ | ⟨-, hcommits⟩
  · rw [hdone] at hzero
    have hnone : c.pushes? reply = some 0 := by cases reply <;> first | exact hzero | exact absurd rfl (hok _)
    cases c with
    | compose card lines index => exact absurd rfl (hone card lines index)
    | addContent | updateContent | deleteContent | moveContent | setProperty =>
      cases reply <;> first | cases hnone | (rename_i status; cases status <;> cases hnone)
    | _ => cases hr
  · exact hcommits

/-- both requests succeed, one after the other, with nothing between their steps -/
def InTurn (w : AppWorld) (t : Traffic) (c : Command) (ms : List Ambient) (c' : Command) (ms' : List Ambient) : Prop :=
  (t.serve w c ms).Succeeded t.requests.length ∧
    ((t.serve w c ms).serve w c' ms').Succeeded (t.serve w c ms).requests.length

/-- an undo at any time takes the second state back to the first, as far as an undo of the request does -/
def TakenBack (c : Command) (t t' : Traffic) : Prop :=
  ∀ now, ∃ h description, t'.history.undo now = .ok (h, description) ∧ h.undos = t.history.undos ∧
    c.Restored now t.app.store h.store

/-- a request that succeeds after another from a reachable state is taken back by an undo -/
theorem takenBack_of_serve (hk : Kept used L t) (hnodup : (ms.map Ambient.id).Nodup) (hfresh : ∀ m ∈ ms, m.id ∉ used)
    (hr : c'.region? = some r') (hone : ∀ card lines index, c' ≠ .compose card lines index)
    (hs : ((t.serve w c ms).serve w c' ms').Succeeded (t.serve w c ms).requests.length) :
    TakenBack c' (t.serve w c ms) ((t.serve w c ms).serve w c' ms') := by
  obtain ⟨used', L', hk', -⟩ := kept_serve (w := w) hk c hnodup hfresh
  exact (commits_of_serve hk'.keeps.present_sound hr hone hs).undo

/-- **Requests of different regions may change places.** From every reachable state, if both succeed in one order, they
succeed in the other, with the same identifiers and times and the same store; and in either order an undo takes back the
later one and leaves what the earlier one did, save that a block patched by the later one keeps the time of the undo. -/
theorem independent_requests_commute (w : AppWorld) (es : List Event) {c c' : Command} {r r' : Region}
    (ms ms' : List Ambient) (hf : (es.filterMap Event.id? ++ (ms.map Ambient.id ++ ms'.map Ambient.id)).Nodup)
    (hr : c.region? = some r) (hr' : c'.region? = some r') (hne : r ≠ r')
    (hone : ∀ card lines index, c ≠ .compose card lines index)
    (hone' : ∀ card lines index, c' ≠ .compose card lines index) (hs : InTurn w (new.run w es) c ms c' ms') :
    InTurn w (new.run w es) c' ms' c ms ∧
    (((new.run w es).serve w c ms).serve w c' ms').app.store =
      (((new.run w es).serve w c' ms').serve w c ms).app.store ∧
    TakenBack c' ((new.run w es).serve w c ms) (((new.run w es).serve w c ms).serve w c' ms') ∧
    TakenBack c ((new.run w es).serve w c' ms') (((new.run w es).serve w c' ms').serve w c ms) := by
  generalize ht : new.run w es = t at hs ⊢
  obtain ⟨hes, hboth, hapart⟩ := List.nodup_append.1 hf
  obtain ⟨hms, hms', hdisjoint⟩ := List.nodup_append.1 hboth
  obtain ⟨used, L, hk, hused⟩ := kept_new.run_ids (w := w) es hes (by simp)
  rw [ht] at hk
  have hfresh : ∀ m ∈ ms, m.id ∉ used := fun m hm hid =>
    hapart m.id ((hused _ hid).resolve_left (by simp)) m.id (List.mem_append_left _ (List.mem_map_of_mem hm)) rfl
  have hfresh' : ∀ m ∈ ms', m.id ∉ used := fun m hm hid =>
    hapart m.id ((hused _ hid).resolve_left (by simp)) m.id (List.mem_append_right _ (List.mem_map_of_mem hm)) rfl
  obtain ⟨hfirst, hsecond⟩ := hs
  -- the second request comes first: what the first one did cannot be told in its region
  obtain ⟨hfirst', hsame'⟩ := twin_serve (twin_after_serve t hr hne.symm ms).symm hr' hk hms' hfresh' hsecond
  -- and the first one comes second
  obtain ⟨usedOther, LOther, hkOther, husedOther⟩ := kept_serve (w := w) hk c' hms' hfresh'
  have hfreshOther : ∀ m ∈ ms, m.id ∉ usedOther := fun m hm hid => by
    rcases husedOther _ hid with hid | hid
    · exact hfresh m hm hid
    · exact hdisjoint m.id (List.mem_map_of_mem hm) m.id hid rfl
  obtain ⟨hsecond', hsame⟩ := twin_serve (twin_after_serve t hr' hne ms') hr hkOther hms hfreshOther hfirst
  refine ⟨⟨hfirst', hsecond'⟩, ?_, takenBack_of_serve hk hms hfresh hr' hone' hsecond,
    takenBack_of_serve hk hms' hfresh' hr hone hsecond'⟩
  have hframe := (within_serve w t hr ms).store
  have hframe' := (within_serve w (t.serve w c ms) hr' ms').store
  have hother := (within_serve w t hr' ms').store
  have hother' := (within_serve w (t.serve w c' ms') hr ms).store
  refine Region.eq_of_same_all ?_ fun q => ?_
  · intro id
    exact (hframe'.sameTitles id).symm.trans ((hframe.sameTitles id).symm.trans
      ((hother.sameTitles id).trans (hother'.sameTitles id)))
  · by_cases hq : q = r
    · subst hq
      exact (hframe'.same hne).symm.trans hsame
    · by_cases hq' : q = r'
      · subst hq'
        exact hsame'.trans (hother'.same hq)
      · exact (hframe'.same hq').symm.trans ((hframe.same hq).symm.trans ((hother.same hq').trans (hother'.same hq)))

/-! ### A patch and a property of one card -/

/-- a card with a block, and a template -/
def prepared : List Event :=
  [.arrive (.createCard none none), .step 0 ⟨0, ⟨1⟩, ⟨900⟩⟩, .arrive (.putTemplate ⟨"t", "T", "text", []⟩),
    .step 1 ⟨0, ⟨2⟩, .nil⟩, .arrive (.addContent ⟨1⟩ "text" none)] ++
  (List.range 7).map fun k => .step 2 ⟨k, ⟨.ofNat 128 (k + 3)⟩, .nil⟩

def supplies (first steps : Nat) : List Ambient :=
  (List.range steps).map fun k => ⟨Int.ofNat k, ⟨.ofNat 128 (first + k)⟩, .nil⟩

def patch : Command := .updateContent ⟨1⟩ ⟨5⟩ (.string "x")

def fill : Command := .setProperty ⟨1⟩ "t" "y"

def board : Traffic := new.run (.ofConfig .default) prepared

def patched : Traffic := board.serve (.ofConfig .default) patch (supplies 20 3)

def filled : Traffic := board.serve (.ofConfig .default) fill (supplies 30 4)

def patchedFilled : Traffic := patched.serve (.ofConfig .default) fill (supplies 30 4)

def filledPatched : Traffic := filled.serve (.ofConfig .default) patch (supplies 20 3)

theorem patch_and_property_commute :
    InTurn (.ofConfig .default) board patch (supplies 20 3) fill (supplies 30 4) ∧
    InTurn (.ofConfig .default) board fill (supplies 30 4) patch (supplies 20 3) ∧
    patchedFilled.app.store = filledPatched.app.store ∧
    TakenBack fill patched patchedFilled ∧ TakenBack patch filled filledPatched := by
  have hs : InTurn (.ofConfig .default) board patch (supplies 20 3) fill (supplies 30 4) :=
    ⟨⟨_, _, rfl, rfl, fun e he => by cases he⟩, ⟨_, _, rfl, rfl, fun e he => by cases he⟩⟩
  have hne : Region.body ⟨1⟩ ≠ .property ⟨1⟩ "t" := nofun
  exact ⟨hs, independent_requests_commute (.ofConfig .default) prepared _ _ (by decide) rfl rfl hne
    (fun _ _ _ he => by cases he) (fun _ _ _ he => by cases he) hs⟩

/-- **An undo leaves its time.** A property is written, then a block is patched, and the patch is undone at the time 99.
The block has its payload back and the time 99, so the store is not the one before the patch. -/
theorem undone_patch_leaves_time :
    InTurn (.ofConfig .default) board fill (supplies 30 4) patch (supplies 20 3) ∧
    ∃ h description b x, filledPatched.history.undo 99 = .ok (h, description) ∧
      filled.app.store.block? ⟨5⟩ = some b ∧ h.store.block? ⟨5⟩ = some x ∧ x.value = b.value ∧
      b.updatedAt = 2 ∧ x.updatedAt = 99 ∧ h.store ≠ filled.app.store := by
  refine ⟨⟨⟨_, _, rfl, rfl, fun e he => by cases he⟩, ⟨_, _, rfl, rfl, fun e he => by cases he⟩⟩,
    _, _, _, _, rfl, rfl, rfl, rfl, rfl, rfl, fun hsame => ?_⟩
  have htime := congrArg (fun s : Store => (s.block? ⟨5⟩).map Block.updatedAt) hsame
  exact absurd htime (by decide)

end Traffic

end Corkboard
