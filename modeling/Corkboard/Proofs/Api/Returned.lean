/-
What a content request answers, and what is stored after it.

A request that adds blocks, edits one or moves one answers the block, the blocks or the order. It builds the answer from
what it was about to write, and does not read again. Does the store hold, after the request, what the request has
answered?

- `answered_as_stored_but_for_time`: an addition, a composition and a move answer what is stored, in every field. An
  edit answers the block with the new payload and the time of its change before, while the write stamps the stored one.
- `edited_block_behind`: an edit by a later clock, answered by a block that the store does not hold.

For the requests that write under the order lock the invariant is `Phase.Tells`, and an edit goes through the four
stages of `Editing`.
-/
import Corkboard.Proofs.Api.Counts
import Corkboard.Proofs.Api.Moments

namespace Corkboard

/-- what a request answers is what the store holds: blocks in every field, and the order of its card -/
def Command.AnsweredAsStored (s : Store) : Command → Reply → Prop
  | addContent _ _ _, reply => ∃ b, reply = .newBlock b ∧ s.block? b.id = some b
  | compose _ _ _, reply => ∃ bs, reply = .newBlocks bs ∧ ∀ b ∈ bs, s.block? b.id = some b
  | updateContent _ _ _, reply => ∃ b, reply = .block b ∧ s.block? b.id = some b
  | moveContent card _ _, reply => ∃ c, s.card? card = some c ∧ reply = .order c.contentOrder
  | _, _ => True

/-! ## Calls that write under the lock -/

/-- the call puts in one new block -/
def Call.AddsOne : Call → Prop
  | add _ _ | save ⟨none, _, _⟩ _ => True
  | _ => False

/-- the call is answered by what the store holds -/
def Call.Tells (k : Call) (s : Store) (card : Uuid) : CallAnswer → Prop
  | .block b => k.AddsOne ∧ s.block? b.id = some b
  | .blocks bs => k.Composes ∧ ∀ b ∈ bs, s.block? b.id = some b
  | .order ids => k.Moves ∧ ∃ c, s.card? card = some c ∧ c.contentOrder = ids

/-- the store holds the blocks that a call has put in before -/
def Sequel.Tells (k : Call) (s : Store) : Sequel → Prop
  | answer => k.AddsOne
  | compose saved _ _ => k.Composes ∧ ∀ b ∈ saved, s.block? b.id = some b

/-- the edit is one of the call -/
def OrderEdit.Tells (k : Call) (s : Store) (sequel : Sequel) : OrderEdit → Prop
  | insert _ _ => sequel.Tells k s
  | remove _ => False
  | move _ _ => k.Moves

namespace Phase

/-- what the call has to tell so far is what the store holds -/
def Tells (k : Call) (s : Store) (card : Uuid) : Phase → Prop
  | opening _ _ _ | making _ _ _ _ => k.AddsOne
  | drafting _ _ _ sequel => sequel.Tells k s
  | waiting edit sequel | reading edit sequel _ | writing edit sequel _ _ => edit.Tells k s sequel
  | noting b sequel => s.block? b.id = some b ∧ sequel.Tells k s
  | done (.ok a) => k.Tells s card a
  | done (.error _) => True
  | seeking _ | fetching _ _ _ | replacing _ _ => False

variable {k : Call} {s : Store} {h h' : History} {w : Ambient} {card : Uuid} {p p' : Phase}

theorem tells_composing (hk : k.Composes) {saved : List Block} (hs : ∀ b ∈ saved, s.block? b.id = some b) (index : Nat)
    (drafts : List Committed) : (composing saved index drafts).Tells k s card := by
  cases drafts with
  | nil => exact ⟨hk, hs⟩
  | cons draft drafts => exact ⟨hk, hs⟩

theorem tells_start (r : ContentRegistry) (hk : k.AddsOne ∨ k.Composes ∨ k.Moves) : (start r k).Tells k s card := by
  cases k with
  | add tag index =>
    simp only [start]
    cases r.get? tag with
    | some handler => exact trivial
    | none => trivial
  | compose lines index => exact tells_composing (k := .compose lines index) trivial (by simp) _ _
  | move id index => exact trivial
  | save draft index =>
    obtain ⟨_ | id, tag, value⟩ := draft
    · exact trivial
    · rcases hk with hk | hk | hk <;> cases hk
  | updateValue id value => rcases hk with hk | hk | hk <;> cases hk
  | delete id => rcases hk with hk | hk | hk <;> cases hk

theorem Tells.next (hp : p.Tells k h.store card) (hn : Next h w card p p') : p'.Tells k h.store card := by
  cases hn with
  | opened _ => exact hp
  | made _ => exact hp
  | drafted _ => exact hp
  | sought _ _ => exact hp.elim
  | fetched _ _ => exact hp.elim
  | locked => exact hp
  | held => exact hp
  | read _ _ => exact hp
  | again _ _ _ _ => exact hp
  | @noted b sequel =>
    obtain ⟨hb, hseq⟩ := hp
    cases sequel with
    | answer => exact ⟨hseq, hb⟩
    | compose saved drafts index =>
      refine tells_composing hseq.1 (fun x hx => ?_) index drafts
      rcases List.mem_append.1 hx with hx | hx
      · exact hseq.2 x hx
      · rw [List.mem_singleton.1 hx, hb]
  | ended => exact hp
  | failed _ => trivial

end Phase

variable {k : Call} {s : Store} {h h' : History} {w : Ambient} {card : Uuid} {p p' : Phase}

/-- a block that was not there before leaves those put in before as they are -/
theorem Sequel.Tells.putBlock {sequel : Sequel} (hs : sequel.Tells k s) {b : Block} (hb : s.block? b.id = none)
    (c : Card) :
    sequel.Tells k ((s.putBlock b).putCard c) := by
  cases sequel with
  | answer => exact hs
  | compose saved drafts index =>
    refine ⟨hs.1, fun x hx => ?_⟩
    have hne : x.id ≠ b.id := fun he => by
      have hx := hs.2 x hx
      rw [he, hb] at hx
      cases hx
    rw [Store.block?_putCard, Store.block?_putBlock, if_neg hne, hs.2 x hx]

/-- **One step of a call.** The edit that is written is the one that is told. -/
theorem Task.Acts.tells (ha : Task.Acts w card h p h' p') (ho : p.Of card) (hp : p.Tells k h.store card) :
    p'.Tells k h'.store card := by
  cases ha with
  | quiet hn => exact hp.next hn
  | replaced _ => exact hp.elim
  | @edited edit sequel attempt read group order _ hg hc =>
    obtain ⟨c, hcard, -, hfits, hstore⟩ := (OrderEdit.written_of_commit hg hc).effect
    rw [ho.2] at hcard
    rw [hstore]
    cases edit with
    | insert b index =>
      refine ⟨?_, hp.putBlock hfits.1 _⟩
      rw [OrderEdit.result, Store.block?_putCard, Store.block?_putBlock, if_pos rfl]
    | remove b => exact hp.elim
    | move id index =>
      refine ⟨hp, { c with contentOrder := order }, ?_, rfl⟩
      rw [OrderEdit.result, Store.card?_putCard, if_pos (Store.id_of_card? hcard).symm]

/-! ## Requests -/

namespace RequestPhase

/-- what the request has to tell so far is what the store holds -/
def Tells (c : Command) (s : Store) : RequestPhase → Prop
  | start c' => c' = c
  | call t purpose => ∃ k, c.call? = some (t.handle.card, purpose, k) ∧ t.phase.Tells k s t.handle.card
  | done (.failed _) => True
  | done reply => c.AnsweredAsStored s reply
  | _ => False

variable {c : Command} {h h' : History} {m : Ambient} {p p' : RequestPhase} {purpose : Purpose}

theorem tells_done {reply : Reply} (hr : c.AnsweredAsStored s reply) : (done reply).Tells c s := by
  cases reply <;> first | exact hr | trivial

theorem answeredAsStored_ofResult (hc : c.call? = some (card, purpose, k)) {a : CallAnswer} (ha : k.Tells s card a) :
    c.AnsweredAsStored s (ofResult purpose (.ok a)) := by
  cases c <;> cases hc
  case addContent =>
    cases a with
    | block b => exact ⟨b, rfl, ha.2⟩
    | blocks bs => exact ha.1.elim
    | order ids => exact ha.1.elim
  case compose =>
    cases a with
    | block b => exact ha.1.elim
    | blocks bs => exact ⟨bs, rfl, ha.2⟩
    | order ids => exact ha.1.elim
  case updateContent => cases a <;> exact ha.1.elim
  case deleteContent => trivial
  case moveContent =>
    cases a with
    | block b => exact ha.1.elim
    | blocks bs => exact ha.1.elim
    | order ids =>
      obtain ⟨-, x, hx, rfl⟩ := ha
      exact ⟨x, hx, rfl⟩

theorem tells_afterCall {t : Task} (hc : c.call? = some (t.handle.card, purpose, k))
    (hp : t.phase.Tells k s t.handle.card) : (afterCall purpose t).Tells c s := by
  obtain ⟨handle, name, phase⟩ := t
  cases phase with
  | done r =>
    rcases r with e | a
    · trivial
    · exact tells_done (answeredAsStored_ofResult hc hp)
  | _ => exact ⟨k, hc, hp⟩

/-- **One step of a request** that adds, composes or moves. -/
theorem Acts.tells (hk : ∀ card purpose k, c.call? = some (card, purpose, k) → k.AddsOne ∨ k.Composes ∨ k.Moves)
    (hchanges : c.call?.isSome) (ha : Acts m h p h' p') (ho : p.Of c) (hp : p.Tells c h.store) :
    p'.Tells c h'.store := by
  have hwrites : c.Changes := by cases c <;> first | exact hchanges | cases hchanges
  cases ha with
  | calm hcalm =>
    cases hcalm with
    | failed _ => trivial
    | answered hn => cases hp; exact absurd hwrites hn
    | began hn _ => cases hp; exact absurd hwrites hn
    | went hr _ => cases p <;> first | exact hr.elim | exact hp.elim
    | opened hcall _ =>
      cases hp
      exact ⟨_, hcall, Phase.tells_start _ (hk _ _ _ hcall)⟩
    | asked _ => cases hp; cases hchanges
    | parsed => exact hp.elim
    | readAgain _ => exact hp.elim
    | ended => exact hp
  | called hacts =>
    obtain ⟨k, hcall, hphase⟩ := hp
    exact tells_afterCall hcall (hacts.tells ho.2 hphase)
  | undone _ => cases hp; cases hchanges
  | redone _ => cases hp; cases hchanges
  | created => cases hp; cases hchanges
  | wrote _ => exact hp.elim

end RequestPhase

/-! ## Edits -/

/-- the stages of an edit of one block by itself, after steps with these readings of the clock, with what is stored by
then -/
inductive Editing (s : Store) (card id : Uuid) (v : Json) : List Ambient → Store → RequestPhase → Prop
  | arrived : Editing s card id v [] s (.start (.updateContent card id v))
  | opened {m name} : Editing s card id v [m] s (.call ⟨⟨card, 0⟩, name, .fetching id none v⟩ .changing)
  | fetched {m m' name old} : s.block? id = some old →
    Editing s card id v [m, m'] s (.call ⟨⟨card, 0⟩, name, .replacing { old with value := v } old⟩ .changing)
  | written {m m' m'' ms old} : s.block? id = some old →
    Editing s card id v (m :: m' :: m'' :: ms) (s.putBlock { old with value := v, updatedAt := m''.now })
      (.done (.block { old with value := v }))
  | failed {ms s' e} : Editing s card id v ms s' (.fail e)

theorem Editing.acts {s : Store} {card id : Uuid} {v : Json} {ms : List Ambient} {h h' : History} {m : Ambient}
    {p p' : RequestPhase} (he : Editing s card id v ms h.store p) (ha : RequestPhase.Acts m h p h' p') :
    Editing s card id v (ms ++ [m]) h'.store p' := by
  generalize hs : h.store = s' at he
  cases he with
  | arrived =>
    cases ha with
    | calm hcalm =>
      cases hcalm with
      | failed _ => exact .failed
      | answered hn => exact absurd rfl hn
      | began hn _ => exact absurd rfl hn
      | went hr _ => exact hr.elim
      | opened hcall _ =>
        cases hcall
        rw [hs]
        exact .opened
  | opened =>
    cases ha with
    | calm hcalm =>
      cases hcalm with
      | failed _ => exact .failed
      | went hr _ => exact hr.elim
    | called hacts =>
      cases hacts with
      | quiet hn =>
        cases hn with
        | fetched hold _ =>
          rw [hs] at hold ⊢
          exact .fetched hold
        | failed _ => exact .failed
  | @fetched m₀ m₁ _ old hold =>
    cases ha with
    | calm hcalm =>
      cases hcalm with
      | failed _ => exact .failed
      | went hr _ => exact hr.elim
    | called hacts =>
      cases hacts with
      | quiet hn =>
        cases hn with
        | failed _ => exact .failed
      | replaced hc =>
        rw [History.store_of_commit_updateBlock hc, hs]
        exact @Editing.written s card id v m₀ m₁ m [] old hold
  | written hold =>
    cases ha with
    | calm hcalm =>
      cases hcalm with
      | failed hp => cases hp
      | went hr _ => exact hr.elim
      | ended =>
        rw [hs]
        exact .written hold
  | failed =>
    cases ha with
    | calm hcalm =>
      cases hcalm with
      | failed hp => cases hp
      | went hr _ => exact hr.elim
      | ended => exact .failed

namespace Traffic

variable {w : AppWorld} {t : Traffic}

theorem answered_as_stored {c : Command} {ms : List Ambient} {reply : Reply}
    (hk : ∀ card purpose k, c.call? = some (card, purpose, k) → k.AddsOne ∨ k.Composes ∨ k.Moves)
    (hcall : c.call?.isSome) (hreply : (t.serve w c ms).requests[t.requests.length]? = some ⟨c, .done reply⟩)
    (hok : ∀ e, reply ≠ .failed e) :
    c.AnsweredAsStored (t.serve w c ms).app.store reply := by
  have hstep : ∀ (m : Ambient) (a : App) (p : RequestPhase), p.Of c ∧ p.Tells c a.store →
      (p.step w m t.requests.length a).2.Of c ∧
      (p.step w m t.requests.length a).2.Tells c (p.step w m t.requests.length a).1.store := by
    rintro m a p ⟨ho, hp⟩
    have hacts := RequestPhase.step_acts w m t.requests.length a p
    exact ⟨ho.acts hacts, hacts.tells hk hcall ho hp⟩
  obtain ⟨q, hq, -, -, htells⟩ := serve_keeps hstep ⟨rfl, rfl⟩ ms
  cases hreply.symm.trans hq
  cases reply <;> first | exact htells | exact (hok _ rfl).elim

theorem serve_snoc (w : AppWorld) (t : Traffic) (c : Command) (ms : List Ambient) (m : Ambient) :
    t.serve w c (ms ++ [m]) = (t.serve w c ms).take w (.step t.requests.length m) := by
  rw [serve, List.map_append, ← List.cons_append]
  exact run_snoc ..

theorem editing_serve (w : AppWorld) (t : Traffic) (card id : Uuid) (v : Json) (ms : List Ambient) :
    ∃ p, (t.serve w (.updateContent card id v) ms).requests[t.requests.length]? = some ⟨.updateContent card id v, p⟩ ∧
      Editing t.app.store card id v ms (t.serve w (.updateContent card id v) ms).app.store p := by
  induction ms using List.reverseRecOn with
  | nil => exact ⟨.start (.updateContent card id v), by simp [serve, run, Traffic.take], .arrived⟩
  | append_singleton ms m ih =>
    obtain ⟨p, hp, hstage⟩ := ih
    rw [serve_snoc]
    refine ⟨_, getElem?_take_step w hp m, ?_⟩
    rw [(take_step w hp m).1]
    exact hstage.acts (RequestPhase.step_acts w m _ _ p)

/-- **What is answered and what is stored.** From any state, with nothing between its steps, a request that adds,
composes or moves and succeeds answers what the store then holds. One that edits a block answers the block as it was
read with the new payload, where the store has the time of the write, so it answers what is stored exactly if the time
of the last change was that time already. -/
theorem answered_as_stored_but_for_time (w : AppWorld) (t : Traffic) (c : Command) (ms : List Ambient) (reply : Reply)
    (hreply : (t.serve w c ms).requests[t.requests.length]? = some ⟨c, .done reply⟩) (hok : ∀ e, reply ≠ .failed e) :
    ((∀ card id v, c ≠ .updateContent card id v) → c.AnsweredAsStored (t.serve w c ms).app.store reply) ∧
    ∀ card id v, c = .updateContent card id v → ∃ old m, t.app.store.block? id = some old ∧ ms[2]? = some m ∧
      reply = .block { old with value := v } ∧
      (t.serve w c ms).app.store.block? id = some { old with value := v, updatedAt := m.now } ∧
      (c.AnsweredAsStored (t.serve w c ms).app.store reply ↔ old.updatedAt = m.now) := by
  constructor
  · intro hedit
    cases c with
    | addContent card tag index => exact answered_as_stored (by rintro _ _ _ ⟨⟩; exact .inl trivial) rfl hreply hok
    | compose card lines index =>
      exact answered_as_stored (by rintro _ _ _ ⟨⟩; exact .inr (.inl trivial)) rfl hreply hok
    | moveContent card id index =>
      exact answered_as_stored (by rintro _ _ _ ⟨⟩; exact .inr (.inr trivial)) rfl hreply hok
    | updateContent card id v => exact absurd rfl (hedit card id v)
    | _ => trivial
  · rintro card id v rfl
    obtain ⟨p, hp, hstage⟩ := editing_serve w t card id v ms
    cases hreply.symm.trans hp
    generalize hs : (t.serve w (.updateContent card id v) ms).app.store = s at hstage ⊢
    cases hstage with
    | @written _ _ m _ old hold =>
      have hid : old.id = id := Store.id_of_block? hold
      have hstored : (t.app.store.putBlock { old with value := v, updatedAt := m.now }).block? old.id =
          some { old with value := v, updatedAt := m.now } := by rw [Store.block?_putBlock, if_pos rfl]
      refine ⟨old, m, hold, rfl, rfl, hid ▸ hstored, ?_, ?_⟩
      · rintro ⟨b, hb, hsame⟩
        cases hb
        exact (congrArg Block.updatedAt (Option.some.inj (hstored.symm.trans hsame))).symm
      · intro htime
        refine ⟨_, rfl, hstored.trans ?_⟩
        rw [← htime]
    | failed => exact absurd rfl (hok _)

/-! ### Answers on a card with one block -/

/-- a card to which a block was added at the time 5 -/
def oneBlock : Traffic :=
  new.run (.ofConfig .default) ([.arrive (.createCard none none), .step 0 ⟨0, ⟨1⟩, ⟨900⟩⟩,
    .arrive (.addContent ⟨1⟩ "text" none)] ++ (List.range 7).map fun k => .step 1 ⟨5, ⟨.ofNat 128 (k + 10)⟩, .nil⟩)

def twoLines : Command := .compose ⟨1⟩ ["a", "b"] none

def newText : Command := .updateContent ⟨1⟩ ⟨12⟩ (.string "x")

/-- the card after a request whose steps are all taken at one time -/
def servedAt (now : Int) (c : Command) (n : Nat) : Traffic :=
  oneBlock.serve (.ofConfig .default) c ((List.range n).map fun k => ⟨now, ⟨.ofNat 128 (k + 30)⟩, .nil⟩)

theorem composed_later_and_edited_at_once :
    (∃ reply, (servedAt 9 twoLines 11).requests[2]? = some ⟨twoLines, .done reply⟩ ∧
      twoLines.AnsweredAsStored (servedAt 9 twoLines 11).app.store reply) ∧
    ∃ reply, (servedAt 5 newText 3).requests[2]? = some ⟨newText, .done reply⟩ ∧
      newText.AnsweredAsStored (servedAt 5 newText 3).app.store reply := by
  constructor
  · obtain ⟨reply, hreply, hok⟩ : ∃ reply, (servedAt 9 twoLines 11).requests[2]? = some ⟨twoLines, .done reply⟩ ∧
        ∀ e, reply ≠ .failed e := ⟨_, rfl, fun e he => by cases he⟩
    exact ⟨reply, hreply, (answered_as_stored_but_for_time (.ofConfig .default) oneBlock _ _ reply hreply hok).1 nofun⟩
  · obtain ⟨reply, hreply, hok⟩ : ∃ reply, (servedAt 5 newText 3).requests[2]? = some ⟨newText, .done reply⟩ ∧
        ∀ e, reply ≠ .failed e := ⟨_, rfl, fun e he => by cases he⟩
    obtain ⟨old, m, hold, hm, -, -, hexact⟩ :=
      (answered_as_stored_but_for_time (.ofConfig .default) oneBlock _ _ reply hreply hok).2 ⟨1⟩ ⟨12⟩ (.string "x") rfl
    have htime : oneBlock.app.store.block? ⟨12⟩ = some old → old.updatedAt = 5 := by
      rintro ⟨⟩
      rfl
    cases hm
    exact ⟨reply, hreply, hexact.2 (htime hold)⟩

/-- **An answer that is not stored.** The block of the time 5 gets another payload at the time 9, and is answered with
the time 5. -/
theorem edited_block_behind : ∃ b x,
    (servedAt 9 newText 3).requests[2]? = some ⟨newText, .done (.block b)⟩ ∧
    (servedAt 9 newText 3).app.store.block? b.id = some x ∧ b.updatedAt = 5 ∧ x.updatedAt = 9 ∧
    ¬ newText.AnsweredAsStored (servedAt 9 newText 3).app.store (.block b) := by
  refine ⟨_, _, rfl, rfl, rfl, rfl, ?_⟩
  rintro ⟨b, hb, hsame⟩
  cases hb
  exact absurd (congrArg Block.updatedAt (Option.some.inj hsame)) (by decide)

end Traffic

end Corkboard
