/-
What a history stands for.

A history keeps, instead of past and future stores, the changes that lead to them. `History.Mirrors` says which
snapshots it stands for, up to the times of last changes: each step of the undo stack leads from one snapshot to the one
before it, each step of the redo stack to the one after it. Commit, undo, redo and a new card keep this, so undo and
redo never fail while there is a snapshot to go to (`Mirrors.undo`, `Mirrors.redo`, `Mirrors.back_and_forth`).
-/
import Corkboard.Snapshots
import Corkboard.Proofs.History.Steps

namespace Corkboard

/-! ## Trails -/

/-- the steps of a stack lead from a store through the given ones, one step each -/
inductive Trail : List UndoStep → Store → List Store → Prop
  | nil {s : Store} : Trail [] s []
  | cons {step : UndoStep} {steps : List UndoStep} {s t : Store} {ts : List Store} :
    Leads step.mutations s t → Trail steps t ts → Trail (step :: steps) s (t :: ts)

theorem Trail.length_eq {steps : List UndoStep} {s : Store} {ts : List Store} (h : Trail steps s ts) :
    steps.length = ts.length := by
  induction h with
  | nil => rfl
  | cons _ _ ih => simp [ih]

/-- the first step of a stack applies to a store like the first one, and its inverses make a step that leads back -/
theorem Trail.apply {steps : List UndoStep} {s s' t : Store} {ts : List Store} (h : Trail steps s (t :: ts))
    (hs : s'.Alike s) (now : Int) : ∃ step rest t' inverses, steps = step :: rest ∧
      applyGroup now s' step.mutations = .ok (t', inverses) ∧ t'.Alike t ∧ Leads inverses t s ∧ Trail rest t ts := by
  rcases h with _ | ⟨hl, hrest⟩
  obtain ⟨t', inverses, hg, ht, hback⟩ := (hl.congr_left hs).apply now
  exact ⟨_, _, t', inverses, rfl, hg, ht, hback.congr_right hs.symm, hrest⟩

/-! ## A new card -/

section NewCard

variable {s t : Store} {c : Card}

theorem Store.putCard_comm {a b : Card} (h : a.id ≠ b.id) : (s.putCard a).putCard b = (s.putCard b).putCard a := by
  refine Store.ext_lookups (fun id => ?_) (fun id => rfl)
  simp only [Store.card?_putCard]
  split
  · rename_i hb
    rw [if_neg (fun ha => h (ha.symm.trans hb))]
  · rfl

theorem Store.Alike.putCard_swap {a : Card} (ha : t.Alike (s.putCard a)) (h : a.id ≠ c.id) :
    (t.putCard c).Alike ((s.putCard c).putCard a) :=
  (ha.putCard c).trans (.of_eq (Store.putCard_comm h))

theorem Store.ne_of_card? {id : Uuid} {c₀ : Card} (hn : s.card? c.id = none) (hc : s.card? id = some c₀) :
    id ≠ c.id := by
  rintro rfl
  rw [hn] at hc; cases hc

theorem Store.card?_putCard_of_ne {id : Uuid} (h : id ≠ c.id) : (s.putCard c).card? id = s.card? id := by
  rw [Store.card?_putCard, if_neg h]

/-- a change leads on in the same way beside a card that it does not know -/
theorem Change.Links.putCard {ch : Change} (h : ch.Links s t) (hn : s.card? c.id = none) :
    ch.Links (s.putCard c) (t.putCard c) := by
  have hcard : ∀ {id : Uuid} {c₀ : Card}, s.card? id = some c₀ → (s.putCard c).card? id = some c₀ ∧ c₀.id ≠ c.id := by
    intro id c₀ hc
    have hne := Store.ne_of_card? hn hc
    exact ⟨(Store.card?_putCard_of_ne hne).trans hc, by rwa [Store.id_of_card? hc]⟩
  cases ch with
  | insertBlock b =>
    obtain ⟨hb, hp, ha⟩ := h
    obtain ⟨c₀, hc₀⟩ := Option.isSome_iff_exists.1 hp
    exact ⟨hb, by simp [(hcard hc₀).1], ha.putCard c⟩
  | updateBlock new old => exact ⟨h.1, h.2.putCard c⟩
  | deleteBlock b =>
    obtain ⟨x, hx, hp, ha⟩ := h
    obtain ⟨c₀, hc₀⟩ := Option.isSome_iff_exists.1 hp
    exact ⟨x, hx, by simp [(hcard hc₀).1], ha.putCard c⟩
  | changeOrder card old new =>
    obtain ⟨c₀, hc, ho, hold, hnew, ha⟩ := h
    obtain ⟨hc', hne⟩ := hcard hc
    exact ⟨c₀, hc', ho, ⟨hold.nodup, hold.owned⟩, ⟨hnew.nodup, hnew.owned⟩, ha.putCard_swap hne⟩
  | updateCard new old =>
    obtain ⟨c₀, hc, ha⟩ := h
    obtain ⟨hc', hne⟩ := hcard hc
    exact ⟨c₀, hc', ha.putCard_swap hne⟩
  | setProperty card templateId old new =>
    obtain ⟨c₀, hc, ha⟩ := h
    obtain ⟨hc', hne⟩ := hcard hc
    exact ⟨c₀, hc', ha.putCard_swap hne⟩

/-- no change makes a card -/
theorem Change.Links.card?_eq_none {ch : Change} (h : ch.Links s t) {id : Uuid} (hn : s.card? id = none) :
    t.card? id = none := by
  have hput : ∀ {x : Uuid} {c₀ a : Card}, s.card? x = some c₀ → t.Alike (s.putCard a) → a.id = c₀.id →
      t.card? id = none := by
    intro x c₀ a hc ha hid
    rw [ha.cards, Store.card?_putCard, if_neg, hn]
    rintro rfl
    rw [hid, Store.id_of_card? hc, hc] at hn; cases hn
  cases ch with
  | insertBlock b => rw [h.2.2.cards]; exact hn
  | updateBlock new old => rw [h.2.cards]; exact hn
  | deleteBlock b =>
    obtain ⟨x, -, -, ha⟩ := h
    rw [ha.cards]; exact hn
  | changeOrder card old new =>
    obtain ⟨c₀, hc, -, -, -, ha⟩ := h
    exact hput hc ha rfl
  | updateCard new old =>
    obtain ⟨c₀, hc, ha⟩ := h
    exact hput hc ha rfl
  | setProperty card templateId old new =>
    obtain ⟨c₀, hc, ha⟩ := h
    exact hput hc ha rfl

theorem Leads.putCard {ms : List Mutation} (h : Leads ms s t) (hn : s.card? c.id = none) :
    Leads ms (s.putCard c) (t.putCard c) := by
  induction h with
  | nil ha => exact .nil (ha.putCard c)
  | cons hl _ ih => exact .cons (hl.putCard hn) (ih (hl.card?_eq_none hn))

theorem Trail.putCard {steps : List UndoStep} {ts : List Store} (h : Trail steps s ts) (hn : s.card? c.id = none)
    (hts : ∀ t ∈ ts, t.card? c.id = none) : Trail steps (s.putCard c) (ts.map (·.putCard c)) := by
  induction h with
  | nil => exact .nil
  | cons hl _ ih =>
    have ht := hts _ List.mem_cons_self
    exact .cons (hl.putCard hn) (ih ht fun t ht => hts t (List.mem_cons_of_mem _ ht))

end NewCard

/-! ## Going back and forth among snapshots -/

namespace Snapshots

theorem forth_succ (x : Snapshots) (n : Nat) : x.forth (n + 1) = (x.forth n).next := by
  induction n generalizing x with
  | zero => rfl
  | succ n ih => exact ih x.next

/-- as many redos as undos lead back -/
theorem forth_back (x : Snapshots) (n : Nat) (hn : n ≤ x.past.length) : (x.back n).forth n = x := by
  induction n generalizing x with
  | zero => rfl
  | succ n ih =>
    obtain ⟨_ | ⟨s, past⟩, present, future⟩ := x
    · simp at hn
    · have hback := ih ⟨past, s, present :: future⟩ (by simpa using hn)
      exact (forth_succ _ n).trans (congrArg next hback)

theorem length_future_back (x : Snapshots) (n : Nat) (hn : n ≤ x.past.length) :
    (x.back n).future.length = x.future.length + n := by
  induction n generalizing x with
  | zero => rfl
  | succ n ih =>
    obtain ⟨_ | ⟨s, past⟩, present, future⟩ := x
    · simp at hn
    · have hback := ih ⟨past, s, present :: future⟩ (by simpa using hn)
      exact hback.trans (by simp only [List.length_cons]; omega)

/-- undoing everything makes the oldest store present -/
theorem present_back (x : Snapshots) : (x.back x.past.length).present = x.oldest := by
  obtain ⟨past, present, future⟩ := x
  induction past generalizing present future with
  | nil => rfl
  | cons s past ih =>
    refine (ih s (present :: future)).trans ?_
    simp only [oldest, List.getLast?_cons, Option.getD_some]

end Snapshots

/-! ## Histories and snapshots -/

/-- undo at each of some times in turn -/
def History.undoAll (h : History) : List Int → Except HistoryError History
  | [] => .ok h
  | now :: nows =>
    match h.undo now with
    | .ok (h', _) => h'.undoAll nows
    | .error e => .error e

def History.redoAll (h : History) : List Int → Except HistoryError History
  | [] => .ok h
  | now :: nows =>
    match h.redo now with
    | .ok (h', _) => h'.redoAll nows
    | .error e => .error e

/-- a history stands for snapshots -/
structure History.Mirrors (h : History) (x : Snapshots) : Prop where
  present : h.store.Alike x.present
  past : Trail h.undos x.present x.past
  future : Trail h.redos x.present x.future

namespace History.Mirrors

variable {h h' : History} {x y : Snapshots} {now : Int}

theorem empty : History.empty.Mirrors .empty := ⟨.refl _, .nil, .nil⟩

theorem length_past (hm : h.Mirrors x) : h.undos.length = x.past.length := hm.past.length_eq

theorem length_future (hm : h.Mirrors x) : h.redos.length = x.future.length := hm.future.length_eq

theorem commit {ms : List Mutation} (hm : h.Mirrors x) (hne : ms ≠ []) (hc : h.commit now ms = .ok h')
    (hl : Leads ms h.store h'.store) : h'.Mirrors (x.push h'.store) := by
  obtain ⟨t, inverses, hg, rfl⟩ := (commit_eq_ok_iff hne).1 hc
  obtain ⟨t', inverses', hg', -, hback⟩ := hl.apply now
  rw [hg] at hg'; cases hg'
  exact ⟨.refl _, .cons (hback.congr_right hm.present.symm) hm.past, .nil⟩

/-- **Undo goes to the last past store**, and fails only when there is none. -/
theorem undo (hm : h.Mirrors x) (now : Int) :
    (x.undo? = none → h.undo now = .error .nothingToUndo) ∧
    (∀ y, x.undo? = some y → ∃ h' description, h.undo now = .ok (h', description) ∧ h'.Mirrors y) := by
  obtain ⟨hstore, hpast, hfuture⟩ := hm
  obtain ⟨past, present, future⟩ := x
  cases past with
  | nil =>
    have hnil : h.undos = [] := List.eq_nil_of_length_eq_zero hpast.length_eq
    exact ⟨fun _ => by simp only [History.undo, hnil], fun _ hy => (by cases hy)⟩
  | cons s past =>
    refine ⟨fun hn => (by cases hn), fun y hy => ?_⟩
    cases hy
    obtain ⟨step, rest, t, inverses, hsteps, hg, ht, hback, hrest⟩ := hpast.apply hstore now
    exact ⟨_, _, undo_eq_ok_iff.2 ⟨step, rest, t, inverses, hsteps, hg, rfl, rfl⟩, ht, hrest, .cons hback hfuture⟩

/-- **Redo goes to the next future store**, and fails only when there is none. -/
theorem redo (hm : h.Mirrors x) (now : Int) :
    (x.redo? = none → h.redo now = .error .nothingToRedo) ∧
    (∀ y, x.redo? = some y → ∃ h' description, h.redo now = .ok (h', description) ∧ h'.Mirrors y) := by
  obtain ⟨hstore, hpast, hfuture⟩ := hm
  obtain ⟨past, present, future⟩ := x
  cases future with
  | nil =>
    have hnil : h.redos = [] := List.eq_nil_of_length_eq_zero hfuture.length_eq
    exact ⟨fun _ => by simp only [History.redo, hnil], fun _ hy => (by cases hy)⟩
  | cons s future =>
    refine ⟨fun hn => (by cases hn), fun y hy => ?_⟩
    cases hy
    obtain ⟨step, rest, t, inverses, hsteps, hg, ht, hback, hrest⟩ := hfuture.apply hstore now
    exact ⟨_, _, redo_eq_ok_iff.2 ⟨step, rest, t, inverses, hsteps, hg, rfl, rfl⟩, ht, .cons hback hpast, hrest⟩

theorem undoAll (hm : h.Mirrors x) (nows : List Int) (hlen : nows.length ≤ x.past.length) :
    ∃ h', h.undoAll nows = .ok h' ∧ h'.Mirrors (x.back nows.length) := by
  induction nows generalizing h x with
  | nil => exact ⟨h, rfl, hm⟩
  | cons now nows ih =>
    obtain ⟨_ | ⟨s, past⟩, present, future⟩ := x
    · simp at hlen
    · obtain ⟨h₁, description, hundo, hm₁⟩ := (hm.undo now).2 _ rfl
      obtain ⟨h', hall, hm'⟩ := ih hm₁ (by simpa using hlen)
      exact ⟨h', by simp only [History.undoAll, hundo, hall], hm'⟩

theorem redoAll (hm : h.Mirrors x) (nows : List Int) (hlen : nows.length ≤ x.future.length) :
    ∃ h', h.redoAll nows = .ok h' ∧ h'.Mirrors (x.forth nows.length) := by
  induction nows generalizing h x with
  | nil => exact ⟨h, rfl, hm⟩
  | cons now nows ih =>
    obtain ⟨past, present, _ | ⟨s, future⟩⟩ := x
    · simp at hlen
    · obtain ⟨h₁, description, hredo, hm₁⟩ := (hm.redo now).2 _ rfl
      obtain ⟨h', hall, hm'⟩ := ih hm₁ (by simpa using hlen)
      exact ⟨h', by simp only [History.redoAll, hredo, hall], hm'⟩

/-- **Back and forth.** Some undos and as many redos all succeed, at whatever times, and give the store back. -/
theorem back_and_forth (hm : h.Mirrors x) (later latest : List Int) (hlater : later.length ≤ h.undos.length)
    (hlatest : latest.length = later.length) :
    ∃ back forth, h.undoAll later = .ok back ∧ back.redoAll latest = .ok forth ∧ forth.store.Alike h.store := by
  rw [hm.length_past] at hlater
  obtain ⟨back, hback, hm₁⟩ := hm.undoAll later hlater
  have hlen := Snapshots.length_future_back x later.length hlater
  obtain ⟨forth, hforth, hm₂⟩ := hm₁.redoAll latest (by omega)
  rw [hlatest, Snapshots.forth_back x _ hlater] at hm₂
  exact ⟨back, forth, hback, hforth, hm₂.present.trans hm.present.symm⟩

theorem insertCard {c : Card} (hm : h.Mirrors x) (hn : ∀ s ∈ x.all, s.card? c.id = none) :
    (h.insertCard c).Mirrors (x.addCard c) := by
  have hpresent := hn x.present (by simp [Snapshots.all])
  refine ⟨hm.present.putCard c, hm.past.putCard hpresent fun s hs => hn s ?_,
    hm.future.putCard hpresent fun s hs => hn s ?_⟩
  · exact List.mem_append_left _ hs
  · exact List.mem_append_right _ (List.mem_cons_of_mem _ hs)

end History.Mirrors

end Corkboard
