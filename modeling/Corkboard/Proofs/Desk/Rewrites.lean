/-
Rewrites of one block side by side.

A rewrite reads the whole block, changes a part of it and writes all of it back, with other steps in between. What it
did not mean to change it puts back as it was read.

- `rewrites_serial_iff`: the block ends as after some sequence of the calls that succeeded exactly if it ends with a
  kind that one of them brought, in case one of them brought any. That is so when every call that brings no kind finds
  the kind it has read still there when it writes.
- `payload_reverts_kind`: a kind and a payload saved between the reading and the writing of another payload. Both calls
  succeed, and the kind is lost.
-/
import Corkboard.Proofs.Desk.Alone
import Corkboard.Proofs.Places

namespace Corkboard

/-! ## Calls, contents and orders -/

namespace Call

/-- the kind that the call brings, if it rewrites a block and brings one -/
def kind? (c : Call) : Option String := c.rewrite?.bind Rewrite.kind

def Rewrites (id : Uuid) (c : Call) : Prop := ∃ ρ, c.rewrite? = some ρ ∧ ρ.id = id

end Call

/-- what a rewrite may change -/
def Block.content (b : Block) : String × Json := (b.kind, b.value)

/-- the kind of the block was the same when the call wrote it as when the call read it -/
def Errand.Steady (id : Uuid) (e : Errand) : Prop :=
  ∀ read write rest, e.turns = read :: write :: rest →
    (read.1.store.block? id).map Block.kind = (write.1.store.block? id).map Block.kind

namespace Floor

/-- a rewrite of the block is made, or some call takes a step -/
def Move.Rewrites (id : Uuid) : Move → Prop
  | .call _ c => c.Rewrites id
  | .step _ _ => True
  | _ => False

def content? (f : Floor) (id : Uuid) : Option (String × Json) := (f.history.store.block? id).map Block.content

/-- the block ends as if the calls that succeeded had been made one after the other in some order -/
def Serial (r : ContentRegistry) (h : History) (id : Uuid) (f : Floor) : Prop :=
  ∃ order : List Errand, order.Perm (f.errands.filter Errand.succeeded) ∧
    ∀ w, ((new h).completeAll r w (order.map fun e => (e.task.handle, e.call))).content? id = f.content? id

def Brought (f : Floor) (kind : String) : Prop := ∃ e ∈ f.errands, e.succeeded ∧ e.call.kind? = some kind

/-- every call that succeeded without bringing a kind wrote while the kind was still the one it had read -/
def Steady (id : Uuid) (f : Floor) : Prop :=
  ∀ e ∈ f.errands, e.succeeded → e.call.kind? = none → e.Steady id

/-- the kind is one that was brought, if one was -/
def Kept (f : Floor) (kind : String) : Prop := (∃ k, f.Brought k) → f.Brought kind

end Floor

/-! ## Sequences -/

namespace Block

variable {b x : Block} {c : Call}

/-- a call that left a block as it is does the same to another one, but for a kind that it does not bring -/
theorem content_rewrittenBy (hx : x.rewrittenBy c = x) {id : Uuid} (hc : c.Rewrites id)
    (hk : c.kind? = none → b.kind = x.kind) : (b.rewrittenBy c).content = x.content := by
  obtain ⟨ρ, hρ, -⟩ := hc
  rw [← hx]
  simp only [rewrittenBy, hρ, Call.kind?, Option.elim_some, Option.bind_some] at hk ⊢
  cases hkind : ρ.kind with
  | none => simp [content, rewritten, hkind, hk hkind]
  | some k => simp [content, rewritten, hkind]

theorem content_eq_of_unstamped {b' : Block} (h : b'.unstamped = b.unstamped) : b'.content = b.content :=
  show b'.unstamped.content = b.unstamped.content from congrArg content h

theorem kind_rewrittenBy (b : Block) (c : Call) : (b.rewrittenBy c).kind = c.kind?.getD b.kind := by
  unfold rewrittenBy Call.kind?
  cases c.rewrite? <;> rfl

theorem rewrittenByAll_concat (b : Block) (cs : List Call) (c : Call) :
    b.rewrittenByAll (cs ++ [c]) = (b.rewrittenByAll cs).rewrittenBy c := by
  simp [rewrittenByAll]

/-- calls that bring no kind leave the kind -/
theorem kind_rewrittenByAll_none (b : Block) {cs : List Call} (hcs : ∀ c ∈ cs, c.kind? = none) :
    (b.rewrittenByAll cs).kind = b.kind := by
  induction cs generalizing b with
  | nil => rfl
  | cons c cs ih =>
    calc (b.rewrittenByAll (c :: cs)).kind
        = (b.rewrittenBy c).kind := ih _ fun c' hc' => hcs c' (List.mem_cons_of_mem _ hc')
      _ = b.kind := by rw [kind_rewrittenBy, hcs c List.mem_cons_self, Option.getD_none]

/-- after calls of which one brings a kind, the kind is one that they bring -/
theorem kind_rewrittenByAll_some (b : Block) (cs : List Call) (hcs : ∃ c ∈ cs, ∃ k, c.kind? = some k) :
    ∃ c ∈ cs, c.kind? = some (b.rewrittenByAll cs).kind := by
  induction cs generalizing b with
  | nil => simp at hcs
  | cons c cs ih =>
    by_cases hrest : ∃ c ∈ cs, ∃ k, c.kind? = some k
    · obtain ⟨c', hc', hkind⟩ := ih (b.rewrittenBy c) hrest
      exact ⟨c', List.mem_cons_of_mem _ hc', hkind⟩
    · have hnone : ∀ c ∈ cs, c.kind? = none := fun c' hc' =>
        Option.eq_none_iff_forall_ne_some.2 fun k hk => hrest ⟨c', hc', k, hk⟩
      have hlast : (b.rewrittenByAll (c :: cs)).kind = c.kind?.getD b.kind :=
        (kind_rewrittenByAll_none _ hnone).trans (kind_rewrittenBy b c)
      obtain ⟨c', hc', k, hk⟩ := hcs
      rcases List.mem_cons.1 hc' with rfl | hc'
      · exact ⟨c', List.mem_cons_self, by rw [hlast, hk, Option.getD_some]⟩
      · exact absurd ⟨c', hc', k, hk⟩ hrest

end Block

/-! ## One call -/

/-- how far a rewrite of a block is; `K` holds of the kinds that the block has had -/
inductive Errand.Rewriting (b : Block) (K : String → Prop) (ρ : Rewrite) (e : Errand) : Prop
  | reading : e.task.phase = .fetching ρ.id ρ.kind ρ.value → e.turns = [] → e.Rewriting b K ρ
  | writing {old : Block} {h : History} : e.task.phase = .replacing (old.rewritten ρ) old →
    e.task.handle.card = b.parentId → e.turns = [(h, h)] → h.store.block? b.id = some old → old.parentId = b.parentId →
    K old.kind → e.Rewriting b K ρ
  | succeeded {answer : CallAnswer} {read write : History × History} {rest : List (History × History)} :
    e.task.phase = .done (.ok answer) → e.task.handle.card = b.parentId → e.turns = read :: write :: rest →
    e.Rewriting b K ρ
  | failed {err : CallError} : e.task.phase = .done (.error err) → e.Rewriting b K ρ

namespace Errand

variable {b x : Block} {K K' : String → Prop} {ρ : Rewrite} {e : Errand}

theorem Rewriting.mono (he : e.Rewriting b K ρ) (hK : ∀ k, K k → K' k) : e.Rewriting b K' ρ := by
  cases he with
  | reading hp ht => exact .reading hp ht
  | writing hp hcard ht hold hparent hk => exact .writing hp hcard ht hold hparent (hK _ hk)
  | succeeded hp hcard ht => exact .succeeded hp hcard ht
  | failed hp => exact .failed hp

theorem Rewriting.card_of_succeeded (he : e.Rewriting b K ρ) (hs : e.succeeded) : e.task.handle.card = b.parentId := by
  cases he with
  | reading hp _ => simp [Errand.succeeded, hp] at hs
  | writing hp _ _ _ _ _ => simp [Errand.succeeded, hp] at hs
  | succeeded _ hcard _ => exact hcard
  | failed hp => simp [Errand.succeeded, hp] at hs

/-- a step of a rewrite that changes neither the history nor what the call has achieved -/
structure Idles (b : Block) (K : String → Prop) (ρ : Rewrite) (w : Ambient) (d : Desk History) (e : Errand) : Prop where
  doc : (e.task.step .plain w d).1.doc = d.doc
  rewriting : (e.stepped w d).Rewriting b K ρ
  succeeded : (e.stepped w d).succeeded = e.succeeded
  steady : e.succeeded → ((e.stepped w d).Steady b.id ↔ e.Steady b.id)

/-- a step of a rewrite that puts back the block as it was read, with the rewrite made in it, where `x` stands; the call
has then succeeded -/
structure Writes (b x : Block) (K : String → Prop) (ρ : Rewrite) (w : Ambient) (d : Desk History) (e : Errand)
    (old : Block) : Prop where
  store : (e.task.step .plain w d).1.doc.store = d.doc.store.putBlock { old.rewritten ρ with updatedAt := w.now }
  id : old.id = b.id
  parent : old.parentId = b.parentId
  kind : K old.kind
  rewriting : (e.stepped w d).Rewriting b K ρ
  before : e.succeeded = false
  after : (e.stepped w d).succeeded = true
  steady : (e.stepped w d).Steady b.id → old.kind = x.kind

theorem idles_of_failed {w : Ambient} {d : Desk History} {err : CallError}
    (hdoc : (e.task.step .plain w d).1.doc = d.doc) (hphase : (e.stepped w d).task.phase = .done (.error err))
    (hnot : e.succeeded = false) : e.Idles b K ρ w d where
  doc := hdoc
  rewriting := .failed hphase
  succeeded := by rw [hnot]; simp [Errand.succeeded, hphase]
  steady hs := by simp [hnot] at hs

theorem Rewriting.step (he : e.Rewriting b K ρ) (hρ : ρ.id = b.id) (w : Ambient) (d : Desk History)
    (hx : d.doc.store.block? b.id = some x) (hparent : x.parentId = b.parentId) (hk : K x.kind) :
    e.Idles b K ρ w d ∨ ∃ old, e.Writes b x K ρ w d old := by
  obtain ⟨hhandle, hacts⟩ := e.stepped_acts w d
  have hturns : (e.stepped w d).turns = e.turns ++ [(d.doc, (e.task.step .plain w d).1.doc)] := rfl
  generalize hphase : (e.stepped w d).task.phase = p' at hacts
  generalize hdoc : (e.task.step .plain w d).1.doc = h' at hacts hturns
  cases he with
  | reading hp ht =>
    have hnot : e.succeeded = false := by simp [Errand.succeeded, hp]
    rw [hp] at hacts
    cases hacts with
    | quiet hn =>
      cases hn with
      | fetched hb hown =>
        cases hx.symm.trans (hρ ▸ hb)
        have hcard : (e.stepped w d).task.handle.card = b.parentId := hhandle ▸ hown.symm.trans hparent
        have hread : (e.stepped w d).turns = [(d.doc, d.doc)] := by rw [hturns, ht]; rfl
        exact .inl ⟨hdoc, .writing hphase hcard hread hx hparent hk, by rw [hnot]; simp [Errand.succeeded, hphase],
          by simp [hnot]⟩
      | failed _ => exact .inl (idles_of_failed hdoc hphase hnot)
  | writing hp hcard ht hold hown hkind =>
    have hnot : e.succeeded = false := by simp [Errand.succeeded, hp]
    rw [hp] at hacts
    cases hacts with
    | quiet hn =>
      cases hn with
      | failed _ => exact .inl (idles_of_failed hdoc hphase hnot)
    | replaced hcommit =>
      refine .inr ⟨_, ?_, Store.id_of_block? hold, hown, hkind, ?_, hnot, by simp [Errand.succeeded, hphase], ?_⟩
      · rw [hdoc, History.store_of_commit_updateBlock hcommit]
      · exact .succeeded hphase (hhandle ▸ hcard) (by rw [hturns, ht]; rfl)
      · intro hsteady
        have hkinds := hsteady _ _ _ (by rw [hturns, ht]; rfl)
        simpa [hold, hx] using hkinds
  | succeeded hp hcard ht =>
    rw [hp] at hacts
    cases hacts with
    | quiet hn =>
      cases hn with
      | ended =>
        refine .inl ⟨hdoc, .succeeded hphase (hhandle ▸ hcard) (by rw [hturns, ht]; rfl), ?_, fun _ => ?_⟩
        · simp [Errand.succeeded, hphase, hp]
        · simp [Steady, hturns, ht]
      | failed hf => exact hf.elim
  | failed hp =>
    have hnot : e.succeeded = false := by simp [Errand.succeeded, hp]
    rw [hp] at hacts
    cases hacts with
    | quiet hn =>
      cases hn with
      | ended => exact .inl (idles_of_failed hdoc hphase hnot)
      | failed hf => exact hf.elim

end Errand

/-! ## All calls -/

namespace Floor

variable {r : ContentRegistry} {f : Floor} {b x : Block} {i : Nat} {e e' : Errand} {k : String}

/-- the block started with this kind, or a call brought it -/
def Had (f : Floor) (b : Block) (kind : String) : Prop := kind = b.kind ∨ f.Brought kind

/-- where the calls are, and how the block stands: `b` is the block at the start, and `x` the block now -/
structure Rewritten (b x : Block) (f : Floor) : Prop where
  stored : f.history.store.block? b.id = some x
  parent : x.parentId = b.parentId
  had : f.Had b x.kind
  calls : ∀ e ∈ f.errands, ∃ ρ, e.call.rewrite? = some ρ ∧ ρ.id = b.id ∧ e.Rewriting b (f.Had b) ρ
  /-- the call that wrote last would change nothing -/
  last : ((∀ e ∈ f.errands, e.succeeded = false) ∧ x.content = b.content) ∨
    ∃ e ∈ f.errands, e.succeeded ∧ x.rewrittenBy e.call = x
  steady : f.Steady b.id → f.Kept x.kind

/-! ### What the calls that succeeded keep -/

/-- every call that has succeeded on the first floor has succeeded on the second, and is steady only if it was -/
def Carried (id : Uuid) (f f' : Floor) : Prop :=
  ∀ e ∈ f.errands, e.succeeded → ∃ e' ∈ f'.errands, e'.succeeded ∧ e'.call = e.call ∧ (e'.Steady id → e.Steady id)

variable {f' : Floor} {id : Uuid}

theorem Brought.carried (h : f.Brought k) (hc : Carried id f f') : f'.Brought k := by
  obtain ⟨e, he, hsucceeded, hkind⟩ := h
  obtain ⟨e', he', hsucceeded', hcall, -⟩ := hc e he hsucceeded
  exact ⟨e', he', hsucceeded', hcall ▸ hkind⟩

theorem Had.carried (h : f.Had b k) (hc : Carried id f f') : f'.Had b k := h.imp_right fun h => h.carried hc

theorem Steady.of_carried (hs : f'.Steady id) (hc : Carried id f f') : f.Steady id := by
  intro e he hsucceeded hkind
  obtain ⟨e', he', hsucceeded', hcall, hback⟩ := hc e he hsucceeded
  exact hback (hs e' he' hsucceeded' (hcall ▸ hkind))

/-- one call replaced by itself some steps later -/
theorem carried_set (id : Uuid) (e' : Errand) (hi : f.errands[i]? = some e) (hcall : e'.call = e.call)
    (hs : e.succeeded → e'.succeeded ∧ (e'.Steady id → e.Steady id)) (desk : Desk History) :
    Carried id f ⟨desk, f.errands.set i e'⟩ := by
  intro e₁ he₁ hsucceeded
  rcases Places.mem_set_or_eq hi he₁ e' with he₁ | rfl
  · exact ⟨e₁, he₁, hsucceeded, rfl, fun h => h⟩
  · exact ⟨e', Places.mem_set_self hi e', (hs hsucceeded).1, hcall, (hs hsucceeded).2⟩

/-- what is brought after one call was replaced was brought before, if not by that call -/
theorem Brought.of_set {desk : Desk History} (h : Brought ⟨desk, f.errands.set i e'⟩ k) :
    f.Brought k ∨ (e'.succeeded ∧ e'.call.kind? = some k) := by
  obtain ⟨e₁, he₁, hsucceeded, hkind⟩ := h
  rcases List.mem_or_eq_of_mem_set he₁ with he₁ | rfl
  · exact .inl ⟨e₁, he₁, hsucceeded, hkind⟩
  · exact .inr ⟨hsucceeded, hkind⟩

/-- one call replaced by itself some steps earlier -/
theorem set_carried (id : Uuid) (e' : Errand) (hi : f.errands[i]? = some e) (hcall : e'.call = e.call)
    (hs : e'.succeeded → e.succeeded ∧ (e.Steady id → e'.Steady id)) (desk : Desk History) :
    Carried id ⟨desk, f.errands.set i e'⟩ f := by
  intro e₁ he₁ hsucceeded
  rcases List.mem_or_eq_of_mem_set he₁ with he₁ | rfl
  · exact ⟨e₁, he₁, hsucceeded, rfl, fun h => h⟩
  · exact ⟨e, List.mem_of_getElem? hi, (hs hsucceeded).1, hcall.symm, (hs hsucceeded).2⟩

/-! ### Moves -/

/-- a move that writes nothing, and after which the same calls have succeeded -/
theorem Rewritten.of_quiet (h : f.Rewritten b x) (hhistory : f'.history = f.history) (hto : Carried b.id f f')
    (hfrom : Carried b.id f' f)
    (hcalls : ∀ e ∈ f'.errands, ∃ ρ, e.call.rewrite? = some ρ ∧ ρ.id = b.id ∧ e.Rewriting b (f'.Had b) ρ) :
    f'.Rewritten b x where
  stored := hhistory ▸ h.stored
  parent := h.parent
  had := h.had.carried hto
  calls := hcalls
  last := by
    rcases h.last with ⟨hnone, hx⟩ | ⟨e, he, hsucceeded, hx⟩
    · refine .inl ⟨fun e' he' => ?_, hx⟩
      cases hs : e'.succeeded with
      | false => rfl
      | true =>
        obtain ⟨e, he, hsucceeded, -, -⟩ := hfrom e' he' hs
        exact absurd (hnone e he) (by simp [hsucceeded])
    · obtain ⟨e', he', hsucceeded', hcall, -⟩ := hto e he hsucceeded
      exact .inr ⟨e', he', hsucceeded', hcall ▸ hx⟩
  steady hsteady := by
    intro hbrought
    obtain ⟨k, hk⟩ := hbrought
    exact (h.steady (hsteady.of_carried hto) ⟨k, hk.carried hfrom⟩).carried hto

theorem rewritten_call (h : f.Rewritten b x) (handle : Handle) {c : Call} (hc : c.Rewrites b.id) :
    (f.take r (.call handle c)).Rewritten b x := by
  have hto : Carried b.id f (f.take r (.call handle c)) := fun e he hsucceeded =>
    ⟨e, List.mem_append_left _ he, hsucceeded, rfl, fun h => h⟩
  obtain ⟨ρ, hρ, hid⟩ := hc
  have hstart := Phase.start_rewrite r hρ
  refine h.of_quiet rfl hto ?_ ?_
  · intro e he hsucceeded
    rcases List.mem_append.1 he with he | he
    · exact ⟨e, he, hsucceeded, rfl, fun h => h⟩
    · obtain rfl := List.mem_singleton.1 he
      simp [Errand.succeeded, hstart] at hsucceeded
  · intro e he
    rcases List.mem_append.1 he with he | he
    · obtain ⟨ρ₁, hρ₁, hid₁, hrewriting⟩ := h.calls e he
      exact ⟨ρ₁, hρ₁, hid₁, hrewriting.mono fun k hk => hk.carried hto⟩
    · obtain rfl := List.mem_singleton.1 he
      exact ⟨ρ, hρ, hid, .reading hstart rfl⟩

theorem calls_set (e' : Errand) (h : f.Rewritten b x) {ρ : Rewrite} (hρ : e'.call.rewrite? = some ρ) (hid : ρ.id = b.id)
    (hrewriting : e'.Rewriting b (f.Had b) ρ) {desk : Desk History} (hto : Carried b.id f ⟨desk, f.errands.set i e'⟩) :
    ∀ e₁ ∈ f.errands.set i e', ∃ ρ, e₁.call.rewrite? = some ρ ∧ ρ.id = b.id ∧
      e₁.Rewriting b (Had ⟨desk, f.errands.set i e'⟩ b) ρ := by
  intro e₁ he₁
  rcases List.mem_or_eq_of_mem_set he₁ with he₁ | rfl
  · obtain ⟨ρ₁, hρ₁, hid₁, hrewriting₁⟩ := h.calls e₁ he₁
    exact ⟨ρ₁, hρ₁, hid₁, hrewriting₁.mono fun k hk => hk.carried hto⟩
  · exact ⟨ρ, hρ, hid, hrewriting.mono fun k hk => hk.carried hto⟩

theorem rewritten_idle (h : f.Rewritten b x) (hi : f.errands[i]? = some e) {ρ : Rewrite} {w : Ambient}
    (hρ : e.call.rewrite? = some ρ) (hid : ρ.id = b.id) (hidle : e.Idles b (f.Had b) ρ w f.desk) :
    (f.take r (.step i w)).Rewritten b x := by
  have hto := carried_set b.id (e.stepped w f.desk) hi rfl
    (fun hs => ⟨hidle.succeeded ▸ hs, (hidle.steady hs).1⟩) (e.task.step .plain w f.desk).1
  have hfrom := set_carried b.id (e.stepped w f.desk) hi rfl
    (fun hs => ⟨hidle.succeeded ▸ hs, (hidle.steady (hidle.succeeded ▸ hs)).2⟩) (e.task.step .plain w f.desk).1
  rw [take_step r hi]
  exact h.of_quiet hidle.doc hto hfrom (calls_set (e.stepped w f.desk) h hρ hid hidle.rewriting hto)

theorem rewritten_write (h : f.Rewritten b x) (hi : f.errands[i]? = some e) {ρ : Rewrite} {w : Ambient} {old : Block}
    (hρ : e.call.rewrite? = some ρ) (hid : ρ.id = b.id) (hwrite : e.Writes b x (f.Had b) ρ w f.desk old) :
    (f.take r (.step i w)).Rewritten b { old.rewritten ρ with updatedAt := w.now } := by
  have hto := carried_set b.id (e.stepped w f.desk) hi rfl
    (fun hs => absurd hs (by simp [hwrite.before])) (e.task.step .plain w f.desk).1
  have hmem : e.stepped w f.desk ∈ f.errands.set i (e.stepped w f.desk) := Places.mem_set_self hi _
  have hcall : (e.stepped w f.desk).call.kind? = ρ.kind := by simp [Errand.stepped, Call.kind?, hρ]
  have hcalls := calls_set (e.stepped w f.desk) h hρ hid hwrite.rewriting hto
  rw [take_step r hi]
  refine ⟨?_, hwrite.parent, ?_, hcalls, .inr ⟨_, hmem, hwrite.after, ?_⟩, ?_⟩
  · have hown : b.id = ({ old.rewritten ρ with updatedAt := w.now } : Block).id := hwrite.id.symm
    calc (e.task.step .plain w f.desk).1.doc.store.block? b.id
        = (f.desk.doc.store.putBlock { old.rewritten ρ with updatedAt := w.now }).block? b.id := by rw [hwrite.store]
      _ = some { old.rewritten ρ with updatedAt := w.now } := by rw [Store.block?_putBlock, if_pos hown]
  · show Had _ b (ρ.kind.getD old.kind)
    cases hkind : ρ.kind with
    | none => exact hwrite.kind.carried hto
    | some k => exact .inr ⟨_, hmem, hwrite.after, by rw [hcall, hkind]; rfl⟩
  · have hrewrite? : (e.stepped w f.desk).call.rewrite? = some ρ := hρ
    simp only [Block.rewrittenBy, hrewrite?, Option.elim_some, Block.rewritten]
    cases ρ.kind <;> rfl
  · intro hsteady hbrought
    show Brought _ (ρ.kind.getD old.kind)
    cases hkind : ρ.kind with
    | some k => exact ⟨_, hmem, hwrite.after, by rw [hcall, hkind]; rfl⟩
    | none =>
      -- the kind that was read is still there, so it is put back where it stood
      have hsame : old.kind = x.kind := hwrite.steady (hsteady _ hmem hwrite.after (by rw [hcall, hkind]))
      obtain ⟨k, hk⟩ := hbrought
      have hbefore : f.Brought k := hk.of_set.resolve_right fun hnew => by simp [hcall, hkind] at hnew
      rw [Option.getD_none, hsame]
      exact (h.steady (hsteady.of_carried hto) ⟨k, hbefore⟩).carried hto

/-- each move keeps the account, with the block as it then stands -/
theorem rewritten_take (h : f.Rewritten b x) {m : Move} (hm : m.Rewrites b.id) : ∃ x', (f.take r m).Rewritten b x' := by
  cases m with
  | call handle c => exact ⟨x, rewritten_call h handle hm⟩
  | step i w =>
    cases hi : f.errands[i]? with
    | none => exact ⟨x, by simpa only [take, hi] using h⟩
    | some e =>
      obtain ⟨ρ, hρ, hid, hrewriting⟩ := h.calls e (List.mem_of_getElem? hi)
      rcases hrewriting.step hid w f.desk h.stored h.parent h.had with hidle | ⟨old, hwrite⟩
      · exact ⟨x, rewritten_idle h hi hρ hid hidle⟩
      · exact ⟨_, rewritten_write h hi hρ hid hwrite⟩
  | undo now => exact hm.elim
  | redo now => exact hm.elim
  | insertCard c => exact hm.elim
  | perform now group => exact hm.elim

theorem rewritten_run (h : f.Rewritten b x) {ms : List Move} (hms : ∀ m ∈ ms, m.Rewrites b.id) :
    ∃ x', (f.run r ms).Rewritten b x' := by
  induction ms generalizing f x with
  | nil => exact ⟨x, h⟩
  | cons m ms ih =>
    obtain ⟨x', hx'⟩ := rewritten_take (r := r) h (hms m List.mem_cons_self)
    exact ih hx' fun m' hm' => hms m' (List.mem_cons_of_mem _ hm')

theorem rewritten_new {h : History} (hb : h.store.block? b.id = some b) : (new h).Rewritten b b where
  stored := hb
  parent := rfl
  had := .inl rfl
  calls := by simp [new]
  last := .inl ⟨by simp [new], rfl⟩
  steady _ hbrought := by
    obtain ⟨k, e, he, -⟩ := hbrought
    cases he

/-! ### Sequences of the calls that succeeded -/

theorem exists_perm_concat {es : List Errand} (he : e ∈ es) : ∃ rest, (rest ++ [e]).Perm es := by
  obtain ⟨s, t, rfl⟩ := List.append_of_mem he
  exact ⟨s ++ t, (List.perm_append_singleton e (s ++ t)).trans List.perm_middle.symm⟩

/-- the block after some of the calls made one after the other from the start -/
theorem content?_completeAll (h : f.Rewritten b x) {start : History} (hb : start.store.block? b.id = some b)
    {order : List Errand} (horder : order.Perm (f.errands.filter Errand.succeeded)) (w : Nat → Ambient) :
    ((new start).completeAll r w (order.map fun e => (e.task.handle, e.call))).content? b.id =
      some (b.rewrittenByAll (order.map Errand.call)).content := by
  have hcalls : ∀ c ∈ order.map fun e => (e.task.handle, e.call), c.1.card = b.parentId ∧
      ∃ ρ, c.2.rewrite? = some ρ ∧ ρ.id = b.id := by
    intro c hc
    obtain ⟨e, he, rfl⟩ := List.mem_map.1 hc
    obtain ⟨he, hsucceeded⟩ := List.mem_filter.1 (horder.mem_iff.1 he)
    obtain ⟨ρ, hρ, hid, hrewriting⟩ := h.calls e he
    exact ⟨hrewriting.card_of_succeeded hsucceeded, ρ, hρ, hid⟩
  obtain ⟨-, halike, -⟩ := completeAll_rewrites r (f := new start) w hcalls hb
  simp only [List.map_map, Function.comp_def] at halike
  have hid : (b.rewrittenByAll (order.map Errand.call)).id = b.id := b.id_rewrittenByAll _
  have hend : (start.store.putBlock (b.rewrittenByAll (order.map Errand.call))).block? b.id =
      some (b.rewrittenByAll (order.map Errand.call)) := by rw [Store.block?_putBlock, if_pos hid.symm]
  obtain ⟨b', hb', hsame⟩ := halike.exists_block? hend
  rw [content?, hb', Option.map_some, Block.content_eq_of_unstamped hsame]

/-- in a sequence of calls of which one brings a kind, the kind at the end is one that they bring -/
theorem kept_of_serial (h : f.Rewritten b x) {start : History} (hb : start.store.block? b.id = some b)
    (hserial : f.Serial r start b.id) : f.Kept x.kind := by
  obtain ⟨order, horder, hcontent⟩ := hserial
  have hmem : ∀ e, e ∈ order ↔ e ∈ f.errands ∧ e.succeeded := fun e => horder.mem_iff.trans List.mem_filter
  have hend : (b.rewrittenByAll (order.map Errand.call)).content = x.content := by
    have hwhole := hcontent fun _ => ⟨0, .nil, .nil⟩
    rw [content?_completeAll h hb horder, content?, h.stored] at hwhole
    exact Option.some.inj hwhole
  intro hbrought
  obtain ⟨k, e, he, hsucceeded, hk⟩ := hbrought
  obtain ⟨c, hc, hkind⟩ := b.kind_rewrittenByAll_some (order.map Errand.call)
    ⟨e.call, List.mem_map_of_mem ((hmem e).2 ⟨he, hsucceeded⟩), k, hk⟩
  obtain ⟨e', he', rfl⟩ := List.mem_map.1 hc
  obtain ⟨he', hsucceeded'⟩ := (hmem e').1 he'
  exact ⟨e', he', hsucceeded', hkind.trans (congrArg (fun c : String × Json => some c.1) hend)⟩

/-- the calls before the last one can be put so that they leave its kind to it -/
theorem exists_order (h : f.Rewritten b x) (hkept : f.Kept x.kind) {last : Errand} (hlast : last ∈ f.errands)
    (hsucceeded : last.succeeded) : ∃ rest, (rest ++ [last]).Perm (f.errands.filter Errand.succeeded) ∧
      (last.call.kind? = none → (b.rewrittenByAll (rest.map Errand.call)).kind = x.kind) := by
  obtain ⟨rest, hrest⟩ := exists_perm_concat (List.mem_filter.2 ⟨hlast, hsucceeded⟩)
  by_cases hbrought : ∃ k, f.Brought k
  · obtain ⟨e, he, hs, hkind⟩ := hkept hbrought
    rcases List.mem_append.1 (hrest.mem_iff.2 (List.mem_filter.2 ⟨he, hs⟩)) with hin | hin
    · obtain ⟨others, hothers⟩ := exists_perm_concat hin
      refine ⟨others ++ [e], (hothers.append_right [last]).trans hrest, fun _ => ?_⟩
      rw [List.map_append, List.map_singleton, Block.rewrittenByAll_concat, Block.kind_rewrittenBy, hkind,
        Option.getD_some]
    · obtain rfl := List.mem_singleton.1 hin
      exact ⟨rest, hrest, fun hnone => by simp [hnone] at hkind⟩
  · refine ⟨rest, hrest, fun _ => ?_⟩
    have hnone : ∀ c ∈ rest.map Errand.call, c.kind? = none := by
      intro c hc
      obtain ⟨e, he, rfl⟩ := List.mem_map.1 hc
      obtain ⟨he, hs⟩ := List.mem_filter.1 (hrest.mem_iff.1 (List.mem_append_left _ he))
      exact Option.eq_none_iff_forall_ne_some.2 fun k hk => hbrought ⟨k, e, he, hs, hk⟩
    have hstart : x.kind = b.kind := h.had.resolve_right fun hb => hbrought ⟨x.kind, hb⟩
    rw [Block.kind_rewrittenByAll_none b hnone, hstart]

/-- a block whose kind was kept stands as after some sequence -/
theorem serial_of_kept (h : f.Rewritten b x) {start : History} (hb : start.store.block? b.id = some b)
    (hkept : f.Kept x.kind) : f.Serial r start b.id := by
  have hend : f.content? b.id = some x.content := by rw [content?, h.stored, Option.map_some]
  rcases h.last with ⟨hnone, hx⟩ | ⟨last, hlast, hsucceeded, hx⟩
  · have hempty : f.errands.filter Errand.succeeded = [] :=
      List.filter_eq_nil_iff.2 fun e he => by simp [hnone e he]
    refine ⟨[], by rw [hempty], fun w => ?_⟩
    rw [hend, hx]
    exact content?_completeAll h hb (by rw [hempty] : List.Perm [] (f.errands.filter Errand.succeeded)) w
  · obtain ⟨rest, hperm, hkind⟩ := exists_order h hkept hlast hsucceeded
    refine ⟨rest ++ [last], hperm, fun w => ?_⟩
    obtain ⟨ρ, hρ, hid, -⟩ := h.calls last hlast
    rw [content?_completeAll h hb hperm, hend, List.map_append, List.map_singleton, Block.rewrittenByAll_concat,
      Block.content_rewrittenBy hx ⟨ρ, hρ, hid⟩ hkind]

/-- **Rewrites side by side.** However the readings and writings of rewrites of one block are mixed, the block ends as
after some sequence of the calls that succeeded exactly if its kind is one that they brought, in case they brought any;
and so it does if every payload without a kind was written while the kind was still the one that was read. -/
theorem rewrites_serial_iff (r : ContentRegistry) (h : History) (b : Block) (ms : List Move)
    (hb : h.store.block? b.id = some b) (hms : ∀ m ∈ ms, m.Rewrites b.id) :
    let f := (new h).run r ms
    ∃ x, f.history.store.block? b.id = some x ∧ (f.Serial r h b.id ↔ f.Kept x.kind) ∧
      (f.Steady b.id → f.Kept x.kind) := by
  obtain ⟨x, hx⟩ := rewritten_run (r := r) (rewritten_new hb) hms
  exact ⟨x, hx.stored, ⟨kept_of_serial hx hb, serial_of_kept hx hb⟩, hx.steady⟩

/-! ### A payload and a draft -/

def payload : Call := .updateValue ⟨10⟩ (.string "new")

def draft : Call := .save ⟨some ⟨10⟩, "checkbox", Payload.ofChecked true "milk"⟩ 0

def rivals (places : List Nat) : List Move :=
  .call ⟨⟨1⟩, 0⟩ payload :: .call ⟨⟨1⟩, 0⟩ draft :: places.map fun place => .step place ⟨30, .nil, .nil⟩

/-- both calls on a card with the block -/
def rivalry (places : List Nat) : Floor := (new History.OneBlock.added).run (.builtin .firstRegistered) (rivals places)

theorem rivals_rewrite (places : List Nat) : ∀ m ∈ rivals places, m.Rewrites History.OneBlock.block.id := by
  have hsteps :
      ∀ m ∈ places.map fun place => Move.step place ⟨30, .nil, .nil⟩, m.Rewrites History.OneBlock.block.id := by
    intro m hm
    obtain ⟨place, -, rfl⟩ := List.mem_map.1 hm
    trivial
  exact List.forall_mem_cons.2 ⟨⟨_, rfl, rfl⟩, List.forall_mem_cons.2 ⟨⟨_, rfl, rfl⟩, hsteps⟩⟩

theorem rivalry_in_turn : (rivalry [1, 1, 0, 0]).content? ⟨10⟩ = some ("checkbox", .string "new") ∧
    (rivalry [1, 1, 0, 0]).Serial (.builtin .firstRegistered) History.OneBlock.added ⟨10⟩ := by
  have hb : History.OneBlock.added.store.block? ⟨10⟩ = some History.OneBlock.block := rfl
  obtain ⟨x, hx, hserial, -⟩ := rewrites_serial_iff (.builtin .firstRegistered) History.OneBlock.added
    History.OneBlock.block (rivals [1, 1, 0, 0]) hb (rivals_rewrite _)
  refine ⟨rfl, hserial.2 fun _ => ?_⟩
  cases (show some _ = some x from hx)
  exact ⟨_, List.mem_of_getElem? (i := 1) rfl, rfl, rfl⟩

/-- **A kind lost.** The payload is read before the draft is saved and written after it: both calls succeed, the block
has the new payload under its old kind, and no sequence of the two would leave it so. -/
theorem payload_reverts_kind : (rivalry [0, 1, 1, 0]).errands.map Errand.succeeded = [true, true] ∧
    (rivalry [0, 1, 1, 0]).content? ⟨10⟩ = some ("text", .string "new") ∧
    ¬ (rivalry [0, 1, 1, 0]).Serial (.builtin .firstRegistered) History.OneBlock.added ⟨10⟩ := by
  refine ⟨rfl, rfl, fun hserial => ?_⟩
  have hb : History.OneBlock.added.store.block? ⟨10⟩ = some History.OneBlock.block := rfl
  obtain ⟨x, hx⟩ := rewritten_run (r := .builtin .firstRegistered) (rewritten_new hb) (rivals_rewrite [0, 1, 1, 0])
  have hkept : (rivalry [0, 1, 1, 0]).Kept x.kind := kept_of_serial hx hb hserial
  cases (show some _ = some x from hx.stored)
  -- the draft brought a kind, but no call brought the kind that the block has
  obtain ⟨e, he, -, hkind⟩ := hkept ⟨"checkbox", _, List.mem_of_getElem? (i := 1) rfl, rfl, rfl⟩
  have hcall : e.call ∈ [payload, draft] := (List.mem_map_of_mem he :)
  rcases List.mem_cons.1 hcall with hcall | hcall
  · rw [hcall] at hkind
    cases hkind
  · rw [List.mem_singleton.1 hcall] at hkind
    exact absurd hkind (by decide)

end Floor

end Corkboard
