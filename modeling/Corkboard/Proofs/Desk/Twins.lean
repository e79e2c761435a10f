/-
A call on two desks.

A call sees the body of its card only. On two desks whose stores are the same inside of that body it stands alike after
every step (`Phase.Twin`), unless it fails on the first one (`Desk.Twin.step`).

Under the lock nothing is refused as stale here: a call that reads the card and writes in its next step finds the order
that it has read (`OrderEdit.not_stale`).
-/
import Corkboard.Proofs.Desk.Entry
import Corkboard.Proofs.Desk.Frames
import Corkboard.Proofs.History.Locality

namespace Corkboard

open Store (card?_putCard block?_putBlock id_of_card? id_of_block?)

/-! ## Orders as they were read -/

/-- a swap of the order that the card has is not refused as stale -/
theorem Store.swapOrder_ne_stale {s : Store} {card : Uuid} {c : Card} (hc : s.card? card = some c) (order : List Uuid)
    (id : Uuid) : s.swapOrder card c.contentOrder order ≠ .error (.staleOrder id) := by
  have hneed : s.needCard card = .ok c := (needCard_eq_ok_iff _ _ _).2 hc
  have hwritten : (s.putCard { c with contentOrder := order }).card? card = some { c with contentOrder := order } := by
    rw [card?_putCard, if_pos (id_of_card? hc).symm]
  simp only [swapOrder, swapOrderInPlace, hneed, ne_eq, not_true_eq_false, if_false, setOrder_eq hc]
  cases (s.putCard { c with contentOrder := order }).checkOrder card with
  | ok =>
    intro hstale
    cases hstale
  | error fault =>
    intro hstale
    simp only [setOrder_eq hwritten] at hstale
    cases hstale

/-- a swap that is refused as stale finds another order than it expects -/
theorem Store.order_of_stale {s : Store} {card id : Uuid} {expected order : List Uuid}
    (h : s.swapOrder card expected order = .error (.staleOrder id)) :
    ∃ c, s.card? card = some c ∧ c.contentOrder ≠ expected := by
  cases hc : s.card? card with
  | none => simp [swapOrder, swapOrderInPlace, needCard, hc] at h
  | some c => exact ⟨c, rfl, fun ho => swapOrder_ne_stale hc order id (ho ▸ h)⟩

/-- a change refused as stale expects another order than the card has -/
theorem Change.order_of_stale {now : Int} {s : Store} {ch : Change} {id : Uuid}
    (h : ch.apply now s = .error (.staleOrder id)) :
    ∃ card old new c, ch = .changeOrder card old new ∧ s.card? card = some c ∧ c.contentOrder ≠ old := by
  cases ch with
  | insertBlock b =>
    simp only [apply, Store.insertBlock] at h
    split at h
    · cases h
    · split at h <;> cases h
  | updateBlock new old =>
    have hnew : (s.putBlock { new with updatedAt := now }).block? new.id = some { new with updatedAt := now } := by
      rw [block?_putBlock, if_pos rfl]
    simp only [apply, Store.updateBlock, Store.needBlock] at h
    cases hb : s.block? new.id with
    | none => simp only [hb] at h; cases h
    | some b => simp only [hb, hnew, bind, Except.bind] at h; cases h
  | deleteBlock b =>
    simp only [apply, Store.removeBlock, Store.needBlock] at h
    cases hb : s.block? b.id <;> simp only [hb] at h <;> cases h
  | changeOrder card old new =>
    cases hswap : s.swapOrder card old new with
    | ok result => simp only [apply, hswap] at h; cases h
    | error e =>
      simp only [apply, hswap] at h
      cases h
      obtain ⟨c, hc, ho⟩ := Store.order_of_stale hswap
      exact ⟨card, old, new, c, rfl, hc, ho⟩
  | updateCard new old =>
    simp only [apply, Store.updateCard, Store.needCard] at h
    cases hc : s.card? new.id <;> simp only [hc] at h <;> cases h
  | setProperty card templateId old new =>
    simp only [apply, Store.setProperty, Store.needCard] at h
    cases hc : s.card? card <;> simp only [hc] at h <;> cases h

/-- a group that is refused as stale has a change that is, where it comes -/
theorem stale_of_applyGroup {now : Int} {s : Store} {ms : List Mutation} {id : Uuid}
    (h : applyGroup now s ms = .error (.staleOrder id)) :
    ∃ before m after u inverses, ms = before ++ m :: after ∧ applyGroup now s before = .ok (u, inverses) ∧
      m.change.apply now u = .error (.staleOrder id) := by
  induction ms generalizing s with
  | nil => cases h
  | cons m ms ih =>
    have hcons : applyGroup now s (m :: ms) = m.apply now s >>= fun r => applyFrom now r.1 [r.2] ms := rfl
    rw [hcons] at h
    cases hm : m.apply now s with
    | error e =>
      rw [hm] at h
      cases h
      refine ⟨[], m, ms, s, [], rfl, rfl, ?_⟩
      cases hc : m.change.apply now s with
      | ok r => simp only [Mutation.apply, hc] at hm; cases hm
      | error e => simp only [Mutation.apply, hc] at hm; cases hm; rfl
    | ok r =>
      obtain ⟨v, back⟩ := r
      rw [hm] at h
      simp only [bind, Except.bind, applyFrom_eq] at h
      cases hg : applyGroup now v ms with
      | ok result => simp only [hg, Except.map] at h; cases h
      | error e =>
        simp only [hg, Except.map] at h
        cases h
        obtain ⟨before, m', after, u, inverses, rfl, hbefore, hstale⟩ := ih hg
        exact ⟨m :: before, m', after, u, _, rfl, applyGroup_cons_eq_ok_iff.2 ⟨v, back, inverses, hm, hbefore, rfl⟩,
          hstale⟩

/-- a group that a history refuses as stale swaps an order, and finds another one than it expects -/
theorem History.order_of_stale {now : Int} {h : History} {ms : List Mutation} {x : HistoryError}
    (hcommit : h.commit now ms = .error x) (hstale : x.isStale) :
    ∃ before m after u inverses card old new c, ms = before ++ m :: after ∧
      applyGroup now h.store before = .ok (u, inverses) ∧ m.change = .changeOrder card old new ∧
      u.card? card = some c ∧ c.contentOrder ≠ old := by
  obtain ⟨id, rfl⟩ : ∃ id, x = .store (.staleOrder id) := by
    unfold HistoryError.isStale at hstale
    split at hstale
    · exact ⟨_, rfl⟩
    · cases hstale
  have hgroup : applyGroup now h.store ms = .error (.staleOrder id) := by
    cases ms with
    | nil => cases hcommit
    | cons m ms =>
      simp only [History.commit] at hcommit
      split at hcommit
      · cases hcommit
      · rename_i e he
        cases hcommit
        exact he
  obtain ⟨before, m, after, u, inverses, hsplit, hbefore, hm⟩ := stale_of_applyGroup hgroup
  obtain ⟨card, old, new, c, hchange, hc, ho⟩ := Change.order_of_stale hm
  exact ⟨before, m, after, u, inverses, card, old, new, c, hsplit, hbefore, hchange, hc, ho⟩

/-! ## Edits on two stores -/

namespace OrderEdit

/-- what the block of an edit must find in a store -/
def Ready (s : Store) : OrderEdit → Prop
  | insert b _ => s.block? b.id = none
  | remove b => (s.block? b.id).isSome
  | move _ _ => True

variable {e : OrderEdit} {card : Uuid} {c c' : Card} {group : List Mutation} {order : List Uuid} {now : Int}
  {h h' k : History}

/-- the group of an edit is built from the identifier and the order of the card -/
theorem group_congr (hid : c'.id = c.id) (horder : c'.contentOrder = c.contentOrder) : e.group c' = e.group c := by
  unfold OrderEdit.group changes
  simp only [hid, horder]

/-- **An edit on two stores.** Where it is accepted on one, it is accepted on the other. -/
theorem commit_same (hs : (Region.body card).Same h.store k.store) (hc : h.store.card? card = some c)
    (hc' : k.store.card? card = some c') (he : e.Of card) (hready : e.Ready k.store)
    (hg : e.group c = .ok (group, order)) (hcommit : h.commit now group = .ok h') :
    e.group c' = .ok (group, order) ∧
      ∃ k', k.commit now group = .ok k' ∧ (Region.body card).Same h'.store k'.store := by
  obtain ⟨c'', hc'', hid, -, horder⟩ := hs.card? hc
  cases hc'.symm.trans hc''
  have hcard : c.id = card := Store.id_of_card? hc
  obtain ⟨-, hgroup⟩ := group_eq_ok_iff.1 hg
  have hin : ∀ m ∈ group, m.change.In (.body card) := by
    rw [hgroup]
    cases e <;> simp_all [changes, Change.In, Of]
  have hfound : Found now k.store group := by
    rw [hgroup]
    cases e with
    | insert b index => exact ⟨hready, fun _ _ _ => ⟨trivial, fun _ _ _ => trivial⟩⟩
    | remove b =>
      refine ⟨trivial, fun u back hm => ⟨?_, fun _ _ _ => trivial⟩⟩
      obtain ⟨-, -, -, -, rfl, -⟩ := Change.apply_changeOrder.1 (Mutation.apply_eq_ok_iff.1 hm).1
      exact hready
    | move id index => exact ⟨trivial, fun _ _ _ => trivial⟩
  obtain ⟨t, inverses, happ, rfl⟩ := (History.commit_eq_ok_iff (group_ne_nil hg)).1 hcommit
  obtain ⟨t', inverses', happ', ht⟩ := applyGroup_same hs hin hfound happ
  exact ⟨(group_congr hid horder).trans hg, _,
    (History.commit_eq_ok_iff (group_ne_nil hg)).2 ⟨t', inverses', happ', rfl⟩, ht⟩

/-- **Refused as stale.** The card has another order by then than the one that the edit was built from. -/
theorem order_of_stale (hg : e.group c = .ok (group, order)) {x : HistoryError}
    (hcommit : h.commit now group = .error x) (hstale : x.isStale) :
    ∃ c', h.store.card? c.id = some c' ∧ c'.contentOrder ≠ c.contentOrder := by
  obtain ⟨before, m, after, u, inverses, card, old, new, c', hsplit, hbefore, hchange, hc', ho⟩ :=
    History.order_of_stale hcommit hstale
  obtain ⟨-, hmake⟩ := group_eq_ok_iff.1 hg
  -- what comes before the swap leaves the cards alone
  suffices hu : card = c.id ∧ old = c.contentOrder ∧ u.card? c.id = h.store.card? c.id by
    obtain ⟨rfl, rfl, hu⟩ := hu
    exact ⟨c', hu ▸ hc', ho⟩
  rw [hmake] at hsplit
  cases e with
  | insert b index =>
    rcases before with _ | ⟨x, _ | ⟨y, before⟩⟩
    · simp only [changes, List.map_cons, List.nil_append, List.cons.injEq] at hsplit
      rw [← hsplit.1] at hchange
      cases hchange
    · simp only [changes, List.map_cons, List.map_nil, List.cons_append, List.nil_append, List.cons.injEq] at hsplit
      obtain ⟨rfl, rfl, -⟩ := hsplit
      cases hchange
      obtain ⟨back, hx, -⟩ := applyGroup_singleton_eq_ok_iff.1 hbefore
      obtain ⟨-, -, rfl, -⟩ := Change.apply_insertBlock.1 (Mutation.apply_eq_ok_iff.1 hx).1
      exact ⟨rfl, rfl, rfl⟩
    · simp [changes] at hsplit
  | remove b =>
    rcases before with _ | ⟨x, _ | ⟨y, before⟩⟩
    · simp only [changes, List.map_cons, List.nil_append, List.cons.injEq] at hsplit
      obtain ⟨rfl, -⟩ := hsplit
      cases hchange
      cases hbefore
      exact ⟨rfl, rfl, rfl⟩
    · simp only [changes, List.map_cons, List.map_nil, List.cons_append, List.nil_append, List.cons.injEq] at hsplit
      obtain ⟨-, rfl, -⟩ := hsplit
      cases hchange
    · simp [changes] at hsplit
  | move id index =>
    rcases before with _ | ⟨x, before⟩
    · simp only [changes, List.map_cons, List.nil_append, List.cons.injEq] at hsplit
      obtain ⟨rfl, -⟩ := hsplit
      cases hchange
      cases hbefore
      exact ⟨rfl, rfl, rfl⟩
    · simp [changes] at hsplit

/-- an edit of a card as it stands is not refused as stale -/
theorem not_stale (hc : h.store.card? c.id = some c) (hg : e.group c = .ok (group, order)) {x : HistoryError}
    (hcommit : h.commit now group = .error x) : ¬ x.isStale := by
  intro hstale
  obtain ⟨c', hc', ho⟩ := order_of_stale hg hcommit hstale
  cases hc.symm.trans hc'
  exact ho rfl

end OrderEdit

/-! ## Calls on two desks -/

/-- the phases of one call on two stores: the same, but for the card as each store has it -/
inductive Phase.Twin (card : Uuid) (s u : Store) : Phase → Phase → Prop
  | bare {p : Phase} : p.Bare → Twin card s u p p
  | making {kind factory index c c'} : s.card? card = some c → u.card? card = some c' →
    Twin card s u (.making kind factory index c) (.making kind factory index c')
  | replacing {new old : Block} : (u.block? new.id).isSome → Twin card s u (.replacing new old) (.replacing new old)
  | waiting {edit sequel} : edit.Of card → edit.Ready u → Twin card s u (.waiting edit sequel) (.waiting edit sequel)
  | reading {edit sequel attempt} : edit.Of card → edit.Ready u →
    Twin card s u (.reading edit sequel attempt) (.reading edit sequel attempt)
  | writing {edit sequel attempt c c'} : edit.Of card → edit.Ready u → s.card? card = some c → u.card? card = some c' →
    Twin card s u (.writing edit sequel attempt c) (.writing edit sequel attempt c')

/-- two desks on which a call stands alike: the body of its card is the same, and its lock is free on both or on
neither -/
structure Desk.Twin (handle : Handle) (d e : Desk History) (p q : Phase) : Prop where
  same : (Region.body handle.card).Same d.doc.store e.doc.store
  lock : d.holder handle = none ↔ e.holder handle = none
  phases : Phase.Twin handle.card d.doc.store e.doc.store p q

namespace Task

variable {d e : Desk History} {handle : Handle} {name name' : Nat} {m : Ambient}

/-- a step of a call on both desks: it fails on the first, or it stands alike afterwards -/
def Follows (m : Ambient) (handle : Handle) (d e : Desk History) (name name' : Nat) (p q : Phase) : Prop :=
  (∃ x, (step .plain m d ⟨handle, name, p⟩).2.phase = .done (.error x)) ∨
  Desk.Twin handle (step .plain m d ⟨handle, name, p⟩).1 (step .plain m e ⟨handle, name', q⟩).1
    (step .plain m d ⟨handle, name, p⟩).2.phase (step .plain m e ⟨handle, name', q⟩).2.phase

theorem readCard_eq {t : Task} {c : Card} (hc : d.doc.store.card? t.handle.card = some c) :
    t.readCard .plain d = .ok c := by
  simp only [readCard, Document.plain, hc]

theorem readCard_same (hs : (Region.body handle.card).Same d.doc.store e.doc.store) (name name' : Nat) (p q : Phase) :
    (∃ c c', readCard .plain d ⟨handle, name, p⟩ = .ok c ∧ readCard .plain e ⟨handle, name', q⟩ = .ok c' ∧
      d.doc.store.card? handle.card = some c ∧ e.doc.store.card? handle.card = some c' ∧ c'.id = c.id ∧
      c'.rootId = c.rootId ∧ c'.contentOrder = c.contentOrder) ∨
    ∃ x, readCard .plain d ⟨handle, name, p⟩ = .error x := by
  rcases readCard_cases (D := .plain) (d := d) (t := ⟨handle, name, p⟩) with ⟨c, hr, hc⟩ | ⟨hr, -⟩
  · obtain ⟨c', hc', hparts⟩ := hs.card? hc
    exact .inl ⟨c, c', hr, readCard_eq (t := ⟨handle, name', q⟩) hc', hc, hc', hparts⟩
  · exact .inr ⟨_, hr⟩

theorem readOwned_same (hs : (Region.body handle.card).Same d.doc.store e.doc.store) (name name' : Nat) (p q : Phase)
    (id : Uuid) :
    (∃ b, readOwned .plain d ⟨handle, name, p⟩ id = .ok b ∧ readOwned .plain e ⟨handle, name', q⟩ id = .ok b ∧
      e.doc.store.block? b.id = some b ∧ b.parentId = handle.card) ∨
    ∃ x, readOwned .plain d ⟨handle, name, p⟩ id = .error x := by
  rcases readOwned_cases (D := .plain) (d := d) (t := ⟨handle, name, p⟩) id with ⟨b, hr, hb, hp⟩ | ⟨hr, -⟩
  · obtain rfl := id_of_block? hb
    have hb' : e.doc.store.block? b.id = some b := (hs.2 _ b hp).1 hb
    have hr' : readOwned .plain e ⟨handle, name', q⟩ b.id = .ok b := by
      simp only [readOwned, Document.plain, hb', Option.filter_some, hp, decide_true, if_true]
    exact .inl ⟨b, hr, hr', hb', hp⟩
  · exact .inr ⟨_, hr⟩

variable {p q p' q' : Phase}

theorem follows_of_quiet (h : Desk.Twin handle d e p q)
    (hp : step .plain m d ⟨handle, name, p⟩ = (d, ⟨handle, name, p'⟩))
    (hq : step .plain m e ⟨handle, name', q⟩ = (e, ⟨handle, name', q'⟩))
    (hphases : Phase.Twin handle.card d.doc.store e.doc.store p' q') : Follows m handle d e name name' p q := by
  refine .inr ?_
  rw [hp, hq]
  exact ⟨h.same, h.lock, hphases⟩

theorem follows_of_failed (d' : Desk History) (x : CallError)
    (hp : step .plain m d ⟨handle, name, p⟩ = (d', ⟨handle, name, .done (.error x)⟩)) :
    Follows m handle d e name name' p q := .inl ⟨x, by rw [hp]⟩

/-- the new block of a call is the same on both desks -/
theorem attach_fresh_eq {c c' : Card} (hid : c'.id = c.id) (hroot : c'.rootId = c.rootId) (kind : String)
    (value : Json) :
    (Block.fresh m.id m.now c'.rootId kind value).attachTo c' =
      (Block.fresh m.id m.now c.rootId kind value).attachTo c := by
  rw [Block.attachTo, Block.attachTo, hid, hroot]

theorem follows_opening {kind : String} {factory : Factory} {index : Nat}
    (h : Desk.Twin handle d e (.opening kind factory index) (.opening kind factory index)) :
    Follows m handle d e name name' (.opening kind factory index) (.opening kind factory index) := by
  rcases readCard_same h.same name name' (.opening kind factory index) (.opening kind factory index)
    with ⟨c, c', hr, hr', hc, hc', -⟩ | ⟨x, hr⟩
  · exact follows_of_quiet h (by simp only [step, hr]; rfl) (by simp only [step, hr']; rfl) (.making hc hc')
  · exact follows_of_failed d x (by simp only [step, hr]; rfl)

theorem follows_making {kind : String} {factory : Factory} {index : Nat} {c c' : Card}
    (h : Desk.Twin handle d e (.making kind factory index c) (.making kind factory index c'))
    (hc : d.doc.store.card? handle.card = some c) (hc' : e.doc.store.card? handle.card = some c')
    (hfresh : e.doc.store.block? m.id = none) :
    Follows m handle d e name name' (.making kind factory index c) (.making kind factory index c') := by
  obtain ⟨c'', hc'', hid, hroot, -⟩ := h.same.card? hc
  cases hc'.symm.trans hc''
  cases ho : factory.outcome with
  | error x => exact follows_of_failed d (.content x) (by simp only [step, Factory.make, ho]; rfl)
  | ok value =>
    have hnext : Phase.Twin handle.card d.doc.store e.doc.store
        (.waiting (.insert ((Block.fresh m.id m.now c.rootId kind value).attachTo c) index) .answer) _ :=
      .waiting (id_of_card? hc) hfresh
    exact follows_of_quiet h (by simp only [step, Factory.make, ho]; rfl)
      (by simp only [step, Factory.make, ho, Except.map, attach_fresh_eq hid hroot]; rfl) hnext

theorem follows_drafting {kind : String} {value : Json} {index : Nat} {sequel : Sequel}
    (h : Desk.Twin handle d e (.drafting kind value index sequel) (.drafting kind value index sequel))
    (hfresh : e.doc.store.block? m.id = none) :
    Follows m handle d e name name' (.drafting kind value index sequel) (.drafting kind value index sequel) := by
  rcases readCard_same h.same name name' (.drafting kind value index sequel)
    (.drafting kind value index sequel) with ⟨c, c', hr, hr', hc, -, hid, hroot, -⟩ | ⟨x, hr⟩
  · have hnext : Phase.Twin handle.card d.doc.store e.doc.store
        (.waiting (.insert ((Block.fresh m.id m.now c.rootId kind value).attachTo c) index) sequel) _ :=
      .waiting (id_of_card? hc) hfresh
    exact follows_of_quiet h (by simp only [step, hr]; rfl)
      (by simp only [step, hr', Except.map, attach_fresh_eq hid hroot]; rfl) hnext
  · exact follows_of_failed d x (by simp only [step, hr]; rfl)

theorem follows_seeking {id : Uuid} (h : Desk.Twin handle d e (.seeking id) (.seeking id)) :
    Follows m handle d e name name' (.seeking id) (.seeking id) := by
  rcases readOwned_same h.same name name' (.seeking id) (.seeking id) id with
    ⟨b, hr, hr', hb, hp⟩ | ⟨x, hr⟩
  · have hnext : Phase.Twin handle.card d.doc.store e.doc.store (.waiting (.remove b) .answer) _ :=
      .waiting hp (Option.isSome_of_eq_some hb)
    exact follows_of_quiet h (by simp only [step, hr]; rfl) (by simp only [step, hr']; rfl) hnext
  · exact follows_of_failed d x (by simp only [step, hr]; rfl)

theorem follows_fetching {id : Uuid} {kind : Option String} {value : Json}
    (h : Desk.Twin handle d e (.fetching id kind value) (.fetching id kind value)) :
    Follows m handle d e name name' (.fetching id kind value) (.fetching id kind value) := by
  rcases readOwned_same h.same name name' (.fetching id kind value) (.fetching id kind value) id with
    ⟨b, hr, hr', hb, -⟩ | ⟨x, hr⟩
  · have hnext : Phase.Twin handle.card d.doc.store e.doc.store
        (.replacing { b with kind := kind.getD b.kind, value := value } b) _ := .replacing (Option.isSome_of_eq_some hb)
    exact follows_of_quiet h (by simp only [step, hr]; rfl) (by simp only [step, hr']; rfl) hnext
  · exact follows_of_failed d x (by simp only [step, hr]; rfl)

theorem follows_replacing {new old : Block} (h : Desk.Twin handle d e (.replacing new old) (.replacing new old))
    (hb' : (e.doc.store.block? new.id).isSome) :
    Follows m handle d e name name' (.replacing new old) (.replacing new old) := by
  obtain ⟨x', hx'⟩ := Option.isSome_iff_exists.1 hb'
  have hq : step .plain m e ⟨handle, name', .replacing new old⟩ = _ := step_replacing hx'
  cases hx : d.doc.store.block? new.id with
  | none =>
    have hcommit :
        d.doc.commit m.now [⟨.updateBlock new old, "edit content"⟩] = .error (.store (.blockNotFound new.id)) := by
      simp only [History.commit, applyGroup, applyFrom, Mutation.apply, Change.apply, Store.updateBlock,
        Store.needBlock, hx]
      rfl
    exact follows_of_failed d (.history (.store (.blockNotFound new.id)))
      (by simp only [step, Document.plain, Document.commit, hcommit]; rfl)
  | some x =>
    refine .inr ?_
    rw [step_replacing hx, hq]
    exact ⟨h.same.putBlock _, h.lock, .bare trivial⟩

theorem setHolder_lock {who who' : Option Nat} (hw : who = none ↔ who' = none) :
    (d.setHolder handle who).holder handle = none ↔ (e.setHolder handle who').holder handle = none := by
  simpa only [Desk.setHolder, if_true] using hw

theorem follows_waiting {edit : OrderEdit} {sequel : Sequel}
    (h : Desk.Twin handle d e (.waiting edit sequel) (.waiting edit sequel)) (he : edit.Of handle.card)
    (hready : edit.Ready e.doc.store) :
    Follows m handle d e name name' (.waiting edit sequel) (.waiting edit sequel) := by
  by_cases hfree : d.holder handle = none
  · refine .inr ?_
    rw [step_waiting hfree, step_waiting (h.lock.1 hfree)]
    exact ⟨h.same, setHolder_lock (by simp), .reading he hready⟩
  · have hheld : e.holder handle ≠ none := fun hn => hfree (h.lock.2 hn)
    have hwait : step .plain m d ⟨handle, name, .waiting edit sequel⟩ = (d, ⟨handle, name, .waiting edit sequel⟩) := by
      simp only [step, hfree, if_false]
    exact follows_of_quiet h hwait (by simp only [step, hheld, if_false]) h.phases

theorem follows_reading {edit : OrderEdit} {sequel : Sequel} {attempt : Nat}
    (h : Desk.Twin handle d e (.reading edit sequel attempt) (.reading edit sequel attempt)) (he : edit.Of handle.card)
    (hready : edit.Ready e.doc.store) :
    Follows m handle d e name name' (.reading edit sequel attempt) (.reading edit sequel attempt) := by
  rcases readCard_same h.same name name' (.reading edit sequel attempt) (.reading edit sequel attempt)
    with ⟨c, c', hr, hr', hc, hc', hid, -, horder⟩ | ⟨x, hr⟩
  · cases hg : edit.group c with
    | error x => exact follows_of_failed _ x (by simp only [step, hr, hg]; rfl)
    | ok g =>
      have hg' : edit.group c' = .ok g := (OrderEdit.group_congr hid horder).trans hg
      exact follows_of_quiet h (step_reading hc hg) (step_reading hc' hg') (.writing he hready hc hc')
  · exact follows_of_failed _ x (by simp only [step, hr]; rfl)

theorem follows_writing {edit : OrderEdit} {sequel : Sequel} {attempt : Nat} {c c' : Card}
    (h : Desk.Twin handle d e (.writing edit sequel attempt c) (.writing edit sequel attempt c'))
    (he : edit.Of handle.card) (hready : edit.Ready e.doc.store) (hc : d.doc.store.card? handle.card = some c)
    (hc' : e.doc.store.card? handle.card = some c') :
    Follows m handle d e name name' (.writing edit sequel attempt c) (.writing edit sequel attempt c') := by
  cases hg : edit.group c with
  | error x => exact follows_of_failed _ x (by simp only [step, hg]; rfl)
  | ok g =>
    obtain ⟨group, order⟩ := g
    cases hcommit : d.doc.commit m.now group with
    | error x =>
      have hstale : ¬ (x.isStale ∧ attempt < orderRetries) := by
        have hown : d.doc.store.card? c.id = some c := by rw [id_of_card? hc, hc]
        exact fun hs => OrderEdit.not_stale hown hg hcommit hs.1
      exact follows_of_failed _ (.history x)
        (by simp only [step, hg, Document.plain, Document.commit, hcommit, hstale, if_false]; rfl)
    | ok h' =>
      obtain ⟨hg', k', hcommit', hs'⟩ := OrderEdit.commit_same h.same hc hc' he hready hg hcommit
      refine .inr ?_
      rw [step_writing hg hcommit, step_writing hg' hcommit']
      exact ⟨hs', setHolder_lock Iff.rfl, .bare (Phase.bare_afterEdit _ _ _)⟩

/-- **One step on two desks.** It fails on the first desk, or the call stands alike on both afterwards. -/
theorem follows (h : Desk.Twin handle d e p q) (hfresh : e.doc.store.block? m.id = none) :
    Follows m handle d e name name' p q := by
  cases h.phases with
  | bare hb =>
    cases p with
    | opening kind factory index => exact follows_opening h
    | drafting kind value index sequel => exact follows_drafting h hfresh
    | seeking id => exact follows_seeking h
    | fetching id kind value => exact follows_fetching h
    | waiting edit sequel =>
      cases edit with
      | move id index => exact follows_waiting h trivial trivial
      | insert b index => exact hb.elim
      | remove b => exact hb.elim
    | noting b sequel =>
      exact .inr ⟨h.same, h.lock, .bare (Phase.bare_afterBlock b sequel)⟩
    | done result => exact .inr h
    | making | replacing | reading | writing => exact hb.elim
  | making hc hc' => exact follows_making h hc hc' hfresh
  | replacing hb => exact follows_replacing h hb
  | waiting he hready => exact follows_waiting h he hready
  | reading he hready => exact follows_reading h he hready
  | writing he hready hc hc' => exact follows_writing h he hready hc hc'

end Task

end Corkboard
