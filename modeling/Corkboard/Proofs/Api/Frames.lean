/-
What a request leaves alone.

A content request may write to the body of its card, the write of a property to that property (`Command.region?`).

- `serve_keeps`, `serve_passes`: what each step of a request keeps, and the stages that its steps pass, while nothing
  comes between them.
- `requests_keep_to_regions`: in every reachable state each step of each request leaves everything outside of its region
  alone, and so do all steps together of a request that nothing interrupts, whatever identifiers they draw.
-/
import Corkboard.Proofs.Api.Soundness
import Corkboard.Proofs.Desk.Frames

namespace Corkboard

/-- the region of a store that a request may write to -/
def Command.region? : Command → Option Region
  | addContent card _ _ | compose card _ _ | updateContent card _ _ | deleteContent card _ | moveContent card _ _ =>
    some (.body card)
  | setProperty card templateId _ => some (.property card templateId)
  | _ => none

/-- the second state of the interface differs from the first in the region only: templates and people are the same, and
so are all cards and blocks but for it -/
structure App.Within (r : Region) (a a' : App) : Prop where
  board : a'.board = a.board
  store : r.Frames a.store a'.store

theorem App.Within.trans {r : Region} {a b c : App} (h : a.Within r b) (h' : b.Within r c) : a.Within r c :=
  ⟨h'.board.trans h.board, h.store.trans h'.store⟩

/-! ## Requests -/

namespace RequestPhase

/-- what a request carries is its own: the card of its call, or its card and its property -/
def Of (c : Command) : RequestPhase → Prop
  | start c' => c' = c
  | call t purpose => (∃ k, c.call? = some (t.handle.card, purpose, k)) ∧ t.phase.Of t.handle.card
  | parseInput x templateId _ | writeProperty x templateId _ => ∃ value, c = .setProperty x.id templateId value
  | _ => True

/-- what is stored under the identifiers that a request is about to write is on its card -/
def Settled (s : Store) : RequestPhase → Prop
  | call t _ => t.phase.Settled s
  | _ => True

variable {c : Command} {h h' : History} {m : Ambient} {p p' : RequestPhase} {r : Region} {t : Task} {purpose : Purpose}

theorem region?_of_call {card : Uuid} {k : Call} (hc : c.call? = some (card, purpose, k)) :
    c.region? = some (.body card) := by
  cases c <;> cases hc <;> rfl

theorem of_afterCall (ho : (call t purpose).Of c) : (afterCall purpose t).Of c := by
  unfold afterCall
  split
  · trivial
  · exact ho

theorem settled_afterCall {s : Store} (hs : t.phase.Settled s) : (afterCall purpose t).Settled s := by
  unfold afterCall
  split
  · trivial
  · exact hs

theorem of_reads (hr : p.Reads) : p.Of c := by
  cases p <;> trivial

theorem Of.calm (ho : p.Of c) (hc : Calm h p p') : p'.Of c := by
  cases hc with
  | failed _ => trivial
  | answered _ => trivial
  | began _ hr => exact of_reads hr
  | went _ hr =>
    rcases hr with hr | hr
    · exact of_reads hr
    · cases p' <;> trivial
  | opened hcall _ =>
    cases ho
    exact ⟨⟨_, hcall⟩, (Phase.bare_start _ _).of⟩
  | asked hx =>
    cases ho
    exact ⟨_, by rw [Store.id_of_card? hx]⟩
  | parsed => exact ho
  | readAgain _ => trivial
  | ended => trivial

theorem settled_calm (hc : Calm h p p') : p'.Settled h.store := by
  cases hc with
  | opened _ _ => exact (Phase.bare_start _ _).settled
  | began _ hr => cases p' <;> trivial
  | went _ hr => cases p' <;> first | trivial | (rcases hr with hr | hr <;> cases hr)
  | _ => trivial

theorem Of.acts (ho : p.Of c) (ha : Acts m h p h' p') : p'.Of c := by
  cases ha with
  | calm hc => exact ho.calm hc
  | called hacts => exact of_afterCall ⟨ho.1, ho.2.acts hacts⟩
  | _ => trivial

theorem Settled.acts (hs : p.Settled h.store) (ha : Acts m h p h' p') : p'.Settled h'.store := by
  cases ha with
  | calm hc => exact settled_calm hc
  | called hacts => exact settled_afterCall (Phase.Settled.acts hs hacts)
  | _ => trivial

/-- **One step of a request** keeps to its region. -/
theorem Acts.frames (ha : Acts m h p h' p') (hr : c.region? = some r) (ho : p.Of c) (hs : p.Settled h.store) :
    r.Frames h.store h'.store := by
  cases ha with
  | calm _ => exact .refl _ _
  | called hacts =>
    obtain ⟨⟨k, hcall⟩, hphase⟩ := ho
    obtain rfl : r = .body _ := Option.some.inj (hr.symm.trans (region?_of_call hcall))
    exact hacts.frames hphase hs
  | undone _ => cases ho; cases hr
  | redone _ => cases ho; cases hr
  | created => cases ho; cases hr
  | @wrote x templateId v _ hc =>
    obtain ⟨value, rfl⟩ := ho
    cases hr
    obtain ⟨t, inverses, hg, rfl⟩ := (History.commit_eq_ok_iff (by simp)).1 hc
    obtain ⟨back, hm, -⟩ := applyGroup_singleton_eq_ok_iff.1 hg
    obtain ⟨y, hy, rfl, -⟩ := Change.apply_setProperty.1 (Mutation.apply_eq_ok_iff.1 hm).1
    have hid := Store.id_of_card? hy
    rw [← hid] at hy ⊢
    exact Region.frames_putCard hy (Region.blank_property_alter y templateId v)

/-- a request with a region has nothing to do with templates and people -/
theorem step_board (w : AppWorld) (m : Ambient) (name : Nat) (a : App) (hr : c.region? = some r) (ho : p.Of c) :
    (p.step w m name a).1.board = a.board := by
  rcases board_step w m name a p with h | ⟨t, rfl, -⟩ | ⟨id, person, rfl, -⟩
  · exact h
  · cases ho
    cases hr
  · cases ho
    cases hr

theorem step_within (w : AppWorld) (m : Ambient) (name : Nat) (a : App) (hr : c.region? = some r) (ho : p.Of c)
    (hs : p.Settled a.store) : a.Within r (p.step w m name a).1 :=
  ⟨step_board w m name a hr ho, (step_acts w m name a p).frames hr ho hs⟩

end RequestPhase

/-! ## Traffic -/

namespace Traffic

variable {w : AppWorld} {t : Traffic} {place : Nat} {q : Asked} {r : Region}

def Own (t : Traffic) : Prop := ∀ q ∈ t.requests, q.phase.Of q.command

/-- a request that arrives and takes steps with nothing between them -/
def serve (w : AppWorld) (t : Traffic) (c : Command) (ms : List Ambient) : Traffic :=
  t.run w (.arrive c :: ms.map (.step t.requests.length))

theorem Own.take (ho : t.Own) (e : Event) : (t.take w e).Own := by
  cases e with
  | arrive c =>
    intro q hq
    rcases List.mem_append.1 hq with hq | hq
    · exact ho q hq
    · obtain rfl := List.mem_singleton.1 hq
      exact rfl
  | step place m =>
    simp only [Traffic.take]
    cases hq : t.requests[place]? with
    | none => exact ho
    | some q =>
      intro q' hq'
      rcases List.mem_or_eq_of_mem_set hq' with hq' | rfl
      · exact ho q' hq'
      · exact (ho q (List.mem_of_getElem? hq)).acts (RequestPhase.step_acts w m place t.app q.phase)

theorem Own.run (ho : t.Own) (es : List Event) : (t.run w es).Own := by
  induction es generalizing t with
  | nil => exact ho
  | cons e es ih => exact ih (ho.take e)

theorem take_step (w : AppWorld) (hq : t.requests[place]? = some q) (m : Ambient) :
    (t.take w (.step place m)).app = (q.phase.step w m place t.app).1 ∧
    (t.take w (.step place m)).requests =
      t.requests.set place { q with phase := (q.phase.step w m place t.app).2 } := by
  simp only [Traffic.take, hq, and_self]

theorem getElem?_take_step (w : AppWorld) (hq : t.requests[place]? = some q) (m : Ambient) :
    (t.take w (.step place m)).requests[place]? = some { q with phase := (q.phase.step w m place t.app).2 } := by
  rw [(take_step w hq m).2, List.getElem?_set_self (List.getElem?_eq_some_iff.1 hq).1]

/-- what each step of a request keeps is kept by all of them in a row -/
theorem steps_keep {I : App → RequestPhase → Prop}
    (hstep : ∀ m a p, I a p → I (p.step w m place a).1 (p.step w m place a).2) (hq : t.requests[place]? = some q)
    (hi : I t.app q.phase) (ms : List Ambient) : ∃ q', (t.run w (ms.map (.step place))).requests[place]? = some q' ∧
      q'.command = q.command ∧ I (t.run w (ms.map (.step place))).app q'.phase := by
  induction ms generalizing t q with
  | nil => exact ⟨q, hq, rfl, hi⟩
  | cons m ms ih =>
    have hnext : I (t.take w (.step place m)).app (q.phase.step w m place t.app).2 := by
      rw [(take_step w hq m).1]
      exact hstep m t.app q.phase hi
    obtain ⟨q', hq', hcommand, hi'⟩ := ih (getElem?_take_step w hq m) hnext
    exact ⟨q', hq', hcommand, hi'⟩

theorem serve_keeps {c : Command} {I : App → RequestPhase → Prop}
    (hstep : ∀ m a p, I a p → I (p.step w m t.requests.length a).1 (p.step w m t.requests.length a).2)
    (hi : I t.app (.start c)) (ms : List Ambient) : ∃ q, (t.serve w c ms).requests[t.requests.length]? = some q ∧
      q.command = c ∧ I (t.serve w c ms).app q.phase := by
  have harrived : (t.take w (.arrive c)).requests[t.requests.length]? = some ⟨c, .start c⟩ := by simp [Traffic.take]
  exact steps_keep (t := t.take w (.arrive c)) hstep harrived hi ms

/-- stages that each step of a request passes on are passed one by one by steps in a row -/
theorem steps_pass {I : Nat → App → Prop} {p : Nat → RequestPhase} {c : Command}
    (hstep : ∀ n m a, I n a → ∃ a', (p n).step w m place a = (a', p (n + 1)) ∧ I (n + 1) a') (n : Nat)
    (hq : t.requests[place]? = some ⟨c, p n⟩) (hi : I n t.app) (ms : List Ambient) :
    (t.run w (ms.map (.step place))).requests[place]? = some ⟨c, p (n + ms.length)⟩ ∧
      I (n + ms.length) (t.run w (ms.map (.step place))).app := by
  induction ms generalizing t n with
  | nil => exact ⟨hq, hi⟩
  | cons m ms ih =>
    obtain ⟨a', hnext, hi'⟩ := hstep n m t.app hi
    have hphase := getElem?_take_step w hq m
    have happ : (t.take w (.step place m)).app = a' := by rw [(take_step w hq m).1, hnext]
    rw [hnext] at hphase
    have hrest := ih (t := t.take w (.step place m)) (n + 1) hphase (happ ▸ hi')
    rw [Nat.add_right_comm, Nat.add_assoc] at hrest
    exact hrest

theorem serve_passes {I : Nat → App → Prop} {p : Nat → RequestPhase} {c : Command} (hstart : p 0 = .start c)
    (hstep : ∀ n m a, I n a → ∃ a', (p n).step w m t.requests.length a = (a', p (n + 1)) ∧ I (n + 1) a')
    (hi : I 0 t.app) (ms : List Ambient) : (t.serve w c ms).requests[t.requests.length]? = some ⟨c, p ms.length⟩ ∧
      I ms.length (t.serve w c ms).app := by
  have harrived : (t.take w (.arrive c)).requests[t.requests.length]? = some ⟨c, p 0⟩ := by simp [Traffic.take, hstart]
  have hpassed := steps_pass (t := t.take w (.arrive c)) hstep 0 harrived hi ms
  rwa [Nat.zero_add] at hpassed

theorem within_serve (w : AppWorld) (t : Traffic) {c : Command} (hr : c.region? = some r) (ms : List Ambient) :
    t.app.Within r (t.serve w c ms).app := by
  have hstep : ∀ (m : Ambient) (a : App) (p : RequestPhase), (p.Of c ∧ p.Settled a.store ∧ t.app.Within r a) →
      (p.step w m t.requests.length a).2.Of c ∧
      (p.step w m t.requests.length a).2.Settled (p.step w m t.requests.length a).1.store ∧
      t.app.Within r (p.step w m t.requests.length a).1 := by
    rintro m a p ⟨ho, hs, hw⟩
    have hacts := RequestPhase.step_acts w m t.requests.length a p
    exact ⟨ho.acts hacts, hs.acts hacts, hw.trans (RequestPhase.step_within w m _ a hr ho hs)⟩
  obtain ⟨q, -, -, -, -, hw⟩ := serve_keeps hstep ⟨rfl, trivial, rfl, .refl _ _⟩ ms
  exact hw

/-- **Requests keep to their regions.** In every reachable state each step of a content request leaves all but the body
of its card alone, and each step of the write of a property all but that property. In any state at all, the same holds
of a request from its arrival on, for as long as nothing comes between its steps. -/
theorem requests_keep_to_regions (w : AppWorld) :
    (∀ (es : List Event), Fresh es → ∀ (place : Nat) (q : Asked) (r : Region) (m : Ambient),
      (new.run w es).requests[place]? = some q → q.command.region? = some r →
        (new.run w es).app.Within r ((new.run w es).take w (.step place m)).app) ∧
    ∀ (t : Traffic) (c : Command) (r : Region) (ms : List Ambient), c.region? = some r →
      t.app.Within r (t.serve w c ms).app := by
  constructor
  · intro es hf place q r m hq hr
    have hmem := List.mem_of_getElem? hq
    obtain ⟨used, L, hk⟩ := kept_new.run (w := w) es hf (by simp)
    have hown : Own new := by simp [Own, new]
    have hsettled : q.phase.Settled (new.run w es).app.store := by
      have hbacks := hk.backed q hmem
      cases hphase : q.phase with
      | call t purpose =>
        rw [hphase] at hbacks
        exact Phase.settled_of_backs hbacks hk.keeps.present_holds
      | _ => trivial
    rw [(take_step w hq m).1]
    exact RequestPhase.step_within w m place _ hr (hown.run es q hmem) hsettled
  · intro t c r ms hr
    exact within_serve w t hr ms

/-- two cards with a block each, and a request about to write what it has read of the second block -/
def crossed : List Event :=
  [.arrive (.createCard none none), .step 0 ⟨0, ⟨1⟩, ⟨900⟩⟩, .arrive (.createCard none none), .step 1 ⟨0, ⟨2⟩, ⟨900⟩⟩,
    .arrive (.addContent ⟨1⟩ "text" none), .arrive (.addContent ⟨2⟩ "text" none),
    .arrive (.updateContent ⟨2⟩ ⟨12⟩ (.string "x"))] ++
  [2, 2, 2, 2, 2, 2, 2, 3, 3, 3, 3, 3, 3, 3, 4, 4].mapIdx fun k place => .step place ⟨k, ⟨.ofNat 128 (k + 3)⟩, .nil⟩

theorem crossed_keeps_to_second_card :
    Fresh crossed ∧ ∃ q, (new.run (.ofConfig .default) crossed).requests[4]? = some q ∧
    q.command.region? = some (.body ⟨2⟩) ∧
    (new.run (.ofConfig .default) crossed).app.Within (.body ⟨2⟩)
      ((new.run (.ofConfig .default) crossed).take (.ofConfig .default) (.step 4 ⟨99, ⟨99⟩, .nil⟩)).app ∧
    (((new.run (.ofConfig .default) crossed).take (.ofConfig .default) (.step 4 ⟨99, ⟨99⟩, .nil⟩)).app.store.block?
      ⟨12⟩).map (·.value) = some (.string "x") := by
  have hf : Fresh crossed := by decide
  exact ⟨hf, _, rfl, rfl, (requests_keep_to_regions (.ofConfig .default)).1 crossed hf 4 _ _ _ rfl rfl, rfl⟩

end Traffic

end Corkboard
