/-
Groups put together and taken apart.

A document may take a group as one step, or each of its mutations as a step of its own. Does it matter which? Two
histories may have the same store and the same changes on their stacks, cut into steps in different ways
(`History.SameChanges`).

- `applyGroup_append_eq_ok_iff` and `applyGroup_eq_error_iff`: a group applies exactly when its parts apply one after
  the other, and otherwise it is refused with the error of the first mutation that fails.
- `Change.AsksSame`: two changes that differ only in what the caller believes to be in the store. They do the same.
- `group_in_parts`: all of it, with the two documents. They accept and refuse the same groups with the same errors, an
  accepted group leaves the same store and the same changes to undo, and the one undo of the group does what the undos
  of the single mutations do.
-/
import Corkboard.Desk.Rehearsal
import Corkboard.Proofs.History.Steps
import Mathlib.Data.List.Forall2

namespace Corkboard

/-! ## The first mutation that fails -/

section Errors

variable {now : Int} {s : Store} {m : Mutation} {ms : List Mutation} {e : StoreError}

theorem applyGroup_cons_eq_error_iff : applyGroup now s (m :: ms) = .error e ↔
    m.apply now s = .error e ∨ ∃ u back, m.apply now s = .ok (u, back) ∧ applyGroup now u ms = .error e := by
  have hcons : applyGroup now s (m :: ms) = m.apply now s >>= fun r => applyFrom now r.1 [r.2] ms := rfl
  cases hm : m.apply now s with
  | error x => simp [hcons, hm, bind, Except.bind]
  | ok r =>
    obtain ⟨u, back⟩ := r
    simp only [hcons, hm, bind, Except.bind, applyFrom_eq]
    cases hg : applyGroup now u ms with
    | error x => simp [Except.map, hg]
    | ok r => simp [Except.map, hg]

/-- A group is refused with the error of the first mutation that fails, after those before it were applied. -/
theorem applyGroup_eq_error_iff : applyGroup now s ms = .error e ↔ ∃ before m after u inverses,
    ms = before ++ m :: after ∧ applyGroup now s before = .ok (u, inverses) ∧ m.apply now u = .error e := by
  induction ms generalizing s with
  | nil =>
    constructor
    · intro h
      cases h
    · intro h
      obtain ⟨before, m, after, u, inverses, hsplit, -, -⟩ := h
      simp at hsplit
  | cons m ms ih =>
    rw [applyGroup_cons_eq_error_iff]
    constructor
    · intro h
      rcases h with h | ⟨u, back, hm, h⟩
      · exact ⟨[], m, ms, s, [], rfl, rfl, h⟩
      · obtain ⟨before, m', after, t, inverses, rfl, hbefore, hfail⟩ := ih.1 h
        exact ⟨m :: before, m', after, t, _, rfl, applyGroup_cons_eq_ok_iff.2 ⟨u, back, inverses, hm, hbefore, rfl⟩,
          hfail⟩
    · intro h
      obtain ⟨before, m', after, t, inverses, hsplit, hbefore, hfail⟩ := h
      cases before with
      | nil =>
        cases hbefore
        cases hsplit
        exact .inl hfail
      | cons m₀ before =>
        cases hsplit
        obtain ⟨u, back, rest, hm, hrest, -⟩ := applyGroup_cons_eq_ok_iff.1 hbefore
        exact .inr ⟨u, back, hm, ih.2 ⟨before, m', after, t, rest, rfl, hrest, hfail⟩⟩

theorem length_of_applyGroup {t : Store} {inverses : List Mutation} (h : applyGroup now s ms = .ok (t, inverses)) :
    inverses.length = ms.length := by
  induction ms generalizing s inverses with
  | nil =>
    cases h
    rfl
  | cons m ms ih =>
    obtain ⟨u, back, rest, -, hrest, rfl⟩ := applyGroup_cons_eq_ok_iff.1 h
    simp [ih hrest]

end Errors

/-! ## What the caller believes -/

/-- the two changes differ at most in what the caller believes to be in the store: the value that is replaced, or the
block that is taken out, but for its identifier -/
inductive Change.AsksSame : Change → Change → Prop
  | insertBlock {b} : AsksSame (.insertBlock b) (.insertBlock b)
  | updateBlock {new old old'} : AsksSame (.updateBlock new old) (.updateBlock new old')
  | deleteBlock {b b' : Block} : b.id = b'.id → AsksSame (.deleteBlock b) (.deleteBlock b')
  | changeOrder {card old new} : AsksSame (.changeOrder card old new) (.changeOrder card old new)
  | updateCard {new old old'} : AsksSame (.updateCard new old) (.updateCard new old')
  | setProperty {card templateId old old' new} :
    AsksSame (.setProperty card templateId old new) (.setProperty card templateId old' new)

/-- so do the mutations, under one description -/
def Mutation.AsksSame (m m' : Mutation) : Prop := m.change.AsksSame m'.change ∧ m.description = m'.description

theorem Change.apply_congr {ch ch' : Change} (h : ch.AsksSame ch') (now : Int) (s : Store) :
    ch.apply now s = ch'.apply now s := by
  cases h with
  | deleteBlock hid => simp only [Change.apply, hid]
  | _ => rfl

theorem Mutation.apply_congr {m m' : Mutation} (h : m.AsksSame m') (now : Int) (s : Store) :
    m.apply now s = m'.apply now s := by
  simp only [Mutation.apply, Change.apply_congr h.1, h.2]

/-- Neither the store nor the inverses nor an error depend on what the caller believes. -/
theorem applyGroup_congr {ms ms' : List Mutation} (h : List.Forall₂ Mutation.AsksSame ms ms') (now : Int) (s : Store) :
    applyGroup now s ms = applyGroup now s ms' := by
  suffices hfrom : ∀ s inverses, applyFrom now s inverses ms = applyFrom now s inverses ms' from hfrom s []
  induction h with
  | nil => exact fun _ _ => rfl
  | cons hm _ ih =>
    intro s inverses
    simp only [applyFrom, Mutation.apply_congr hm, ih]

/-! ## One mutation a step -/

def UndoStep.single (m : Mutation) : UndoStep := ⟨m.description, [m]⟩

/-- the same store, and the same changes to undo and to redo, though perhaps cut into other steps -/
structure History.SameChanges (h h' : History) : Prop where
  store : h.store = h'.store
  undos : h.undos.flatMap UndoStep.mutations = h'.undos.flatMap UndoStep.mutations
  redos : h.redos.flatMap UndoStep.mutations = h'.redos.flatMap UndoStep.mutations

/-- so many steps taken back, one after the other -/
def History.undoTimes (now : Int) : Nat → History → Except HistoryError History
  | 0, h => .ok h
  | n + 1, h => do
    let (h', _) ← h.undo now
    h'.undoTimes now n

theorem flatMap_single (ms : List Mutation) : (ms.map UndoStep.single).flatMap UndoStep.mutations = ms := by
  rw [List.flatMap_map]
  exact List.flatMap_singleton' ms

namespace Rehearsal

variable {now : Int} {h : History} {ms : List Mutation}

/-- without an interference, one mutation by itself is a group of one -/
theorem applyOne_unarmed (now : Int) (h : History) (m : Mutation) :
    applyOne false now ⟨h, []⟩ m = (⟨(Document.commit now h [m]).1, []⟩, (Document.commit now h [m]).2) := by
  unfold applyOne
  split <;> rfl

/-- one by one, an accepted group makes as many steps as it has mutations -/
theorem applyAll_unarmed_of_ok {t : Store} {inverses : List Mutation}
    (hg : applyGroup now h.store ms = .ok (t, inverses)) :
    applyAll false now ⟨h, []⟩ ms =
      (⟨⟨t, inverses.map UndoStep.single ++ h.undos, if ms = [] then h.redos else []⟩, []⟩, .ok ()) := by
  induction ms generalizing h inverses with
  | nil =>
    cases hg
    rfl
  | cons m ms ih =>
    obtain ⟨u, back, rest, hm, hrest, rfl⟩ := applyGroup_cons_eq_ok_iff.1 hg
    obtain ⟨-, hdescription⟩ := Mutation.apply_eq_ok_iff.1 hm
    have hcommit : Document.commit now h [m] = (⟨u, UndoStep.single back :: h.undos, []⟩, .ok ()) := by
      simp only [Document.commit, (History.commit_eq_ok_iff (h := h) (by simp)).2
        ⟨u, [back], applyGroup_singleton_eq_ok_iff.2 ⟨back, hm, rfl⟩, rfl⟩, List.head_cons, UndoStep.single,
          hdescription]
    have hnext := ih (h := ⟨u, UndoStep.single back :: h.undos, []⟩) hrest
    simp only [applyAll, applyOne_unarmed, hcommit, hnext, List.map_append, List.map_cons, List.map_nil,
      List.append_assoc, List.singleton_append, reduceCtorEq, ite_self, if_false]

/-- one by one, a refused group ends with the same error -/
theorem applyAll_unarmed_of_error {e : StoreError} (hg : applyGroup now h.store ms = .error e) :
    (applyAll false now ⟨h, []⟩ ms).2 = .error (.store e) := by
  induction ms generalizing h with
  | nil => cases hg
  | cons m ms ih =>
    simp only [applyAll, applyOne_unarmed]
    rcases applyGroup_cons_eq_error_iff.1 hg with hm | ⟨u, back, hm, hrest⟩
    · have hsingle : applyGroup now h.store [m] = .error e := applyGroup_cons_eq_error_iff.2 (.inl hm)
      simp only [Document.commit, History.commit, hsingle]
    · have hcommit : h.commit now [m] = .ok ⟨u, ⟨m.description, [back]⟩ :: h.undos, []⟩ :=
        (History.commit_eq_ok_iff (by simp)).2 ⟨u, [back], applyGroup_singleton_eq_ok_iff.2 ⟨back, hm, rfl⟩, rfl⟩
      simp only [Document.commit, hcommit]
      exact ih hrest

end Rehearsal

namespace History

/-- steps of one mutation each are taken back exactly when their mutations apply in turn -/
theorem undoTimes_single_eq_ok_iff {now : Int} {s : Store} {ms : List Mutation} {rest redos : List UndoStep}
    {back : History} :
    undoTimes now ms.length ⟨s, ms.map UndoStep.single ++ rest, redos⟩ = .ok back ↔
      ∃ t forth, applyGroup now s ms = .ok (t, forth) ∧ back = ⟨t, rest, forth.map UndoStep.single ++ redos⟩ := by
  induction ms generalizing s redos with
  | nil =>
    constructor
    · intro h
      cases h
      exact ⟨s, [], rfl, rfl⟩
    · intro h
      obtain ⟨t, forth, hg, rfl⟩ := h
      cases hg
      rfl
  | cons m ms ih =>
    simp only [List.length_cons, undoTimes, bind_eq_ok_iff, Prod.exists, undo_eq_ok_iff]
    constructor
    · intro h
      obtain ⟨h', description, ⟨step, others, u, inverses, hstep, hu, rfl, rfl⟩, hback⟩ := h
      obtain ⟨rfl, rfl⟩ := List.cons.inj hstep
      obtain ⟨forward, hm, rfl⟩ := applyGroup_singleton_eq_ok_iff.1 hu
      obtain ⟨-, hdescription⟩ := Mutation.apply_eq_ok_iff.1 hm
      obtain ⟨t, forth, hg, rfl⟩ := ih.1 hback
      refine ⟨t, forth ++ [forward], applyGroup_cons_eq_ok_iff.2 ⟨u, forward, forth, hm, hg, rfl⟩, ?_⟩
      simp [UndoStep.single, hdescription]
    · intro h
      obtain ⟨t, inverses, hg, rfl⟩ := h
      obtain ⟨u, forward, forth, hm, hrest, rfl⟩ := applyGroup_cons_eq_ok_iff.1 hg
      obtain ⟨-, hdescription⟩ := Mutation.apply_eq_ok_iff.1 hm
      refine ⟨_, _, ⟨UndoStep.single m, ms.map UndoStep.single ++ rest, u, [forward], rfl,
        applyGroup_singleton_eq_ok_iff.2 ⟨forward, hm, rfl⟩, rfl, rfl⟩, ih.2 ⟨t, forth, hrest, ?_⟩⟩
      simp [UndoStep.single, hdescription]

variable {now later : Int} {h : History} {ms : List Mutation}

theorem perform_plain (now : Int) (h : History) (ms : List Mutation) :
    Document.plain.perform now h ms = Document.commit now h ms := rfl

theorem perform_oneByOne (now : Int) (h : History) (ms : List Mutation) :
    (Document.rehearsed .oneByOne false).perform now ⟨h, []⟩ ms = Rehearsal.applyAll false now ⟨h, []⟩ ms := rfl

/-- both documents accept a group, or both refuse it with the error of the same mutation -/
theorem perform_outcome (now : Int) (h : History) (ms : List Mutation) :
    ((Document.rehearsed .oneByOne false).perform now ⟨h, []⟩ ms).2 = (Document.plain.perform now h ms).2 := by
  rw [perform_plain, perform_oneByOne]
  cases ms with
  | nil => rfl
  | cons m ms =>
    simp only [Document.commit, commit]
    cases hg : applyGroup now h.store (m :: ms) with
    | ok r => rw [Rehearsal.applyAll_unarmed_of_ok hg]
    | error e => exact Rehearsal.applyAll_unarmed_of_error hg

/-- what both documents hold after a group that is not empty -/
theorem performed_of_ok (hne : ms ≠ []) (hok : (Document.plain.perform now h ms).2 = .ok ()) :
    ∃ t inverses, inverses.length = ms.length ∧
      (Document.plain.perform now h ms).1 = ⟨t, ⟨(ms.head hne).description, inverses⟩ :: h.undos, []⟩ ∧
      ((Document.rehearsed .oneByOne false).perform now ⟨h, []⟩ ms).1.history =
        ⟨t, inverses.map UndoStep.single ++ h.undos, []⟩ := by
  simp only [perform_plain, perform_oneByOne, Document.commit] at hok ⊢
  cases hc : h.commit now ms with
  | ok h' =>
    obtain ⟨t, inverses, hg, rfl⟩ := (commit_eq_ok_iff hne).1 hc
    rw [Rehearsal.applyAll_unarmed_of_ok hg, if_neg hne]
    exact ⟨t, inverses, length_of_applyGroup hg, rfl, rfl⟩
  | error e =>
    rw [hc] at hok
    cases hok

/-- **Groups taken apart.** A group of two parts applies exactly when the second applies after the first, with the
inverses of the second in front; a group that does not apply is refused with the error of its first mutation that fails.
Taken whole or one mutation at a time, a group is accepted or refused alike and leaves the same store; as many undos as
it has mutations are accepted exactly when the one undo of the group is, and they do the same. What the caller believes
to be in the store has no part in any of it. -/
theorem group_in_parts (now later : Int) (h : History) :
    (∀ xs ys t inverses, applyGroup now h.store (xs ++ ys) = .ok (t, inverses) ↔ ∃ u first second,
      applyGroup now h.store xs = .ok (u, first) ∧ applyGroup now u ys = .ok (t, second) ∧ inverses = second ++ first) ∧
    (∀ ms e, applyGroup now h.store ms = .error e ↔ ∃ before m after u inverses, ms = before ++ m :: after ∧
      applyGroup now h.store before = .ok (u, inverses) ∧ m.apply now u = .error e) ∧
    (∀ ms, let whole := Document.plain.perform now h ms
      let each := (Document.rehearsed .oneByOne false).perform now ⟨h, []⟩ ms
      each.2 = whole.2 ∧ (whole.2 = .ok () → each.1.history.SameChanges whole.1 ∧ (ms ≠ [] →
        (∀ back, each.1.history.undoTimes later ms.length = .ok back → ∃ back' description,
          whole.1.undo later = .ok (back', description) ∧ back.SameChanges back' ∧ back.undos = h.undos ∧
            back'.undos = h.undos) ∧
        ∀ back' description, whole.1.undo later = .ok (back', description) →
          ∃ back, each.1.history.undoTimes later ms.length = .ok back))) ∧
    ∀ ms ms', List.Forall₂ Mutation.AsksSame ms ms' → applyGroup now h.store ms = applyGroup now h.store ms' := by
  refine ⟨fun _ _ _ _ => applyGroup_append_eq_ok_iff, fun _ _ => applyGroup_eq_error_iff, fun ms => ?_,
    fun _ _ hsame => applyGroup_congr hsame now h.store⟩
  refine ⟨perform_outcome now h ms, fun hok => ?_⟩
  by_cases hne : ms = []
  · subst hne
    exact ⟨⟨rfl, rfl, rfl⟩, fun hne => absurd rfl hne⟩
  obtain ⟨t, inverses, hlength, hwhole, heach⟩ := performed_of_ok hne hok
  rw [hwhole, heach]
  refine ⟨⟨rfl, ?_, rfl⟩, fun _ => ?_⟩
  · simp only [List.flatMap_append, List.flatMap_cons, flatMap_single]
  rw [← hlength]
  constructor
  · intro back hback
    obtain ⟨s, forth, hg, rfl⟩ := undoTimes_single_eq_ok_iff.1 hback
    refine ⟨_, _, undo_eq_ok_iff.2 ⟨_, _, s, forth, rfl, hg, rfl, rfl⟩, ⟨rfl, rfl, ?_⟩, rfl, rfl⟩
    simp [flatMap_single]
  · intro back' description hundo
    obtain ⟨step, rest, s, forth, hstep, hg, -, -⟩ := undo_eq_ok_iff.1 hundo
    obtain ⟨rfl, rfl⟩ := List.cons.inj hstep
    exact ⟨_, undoTimes_single_eq_ok_iff.2 ⟨s, forth, hg, rfl⟩⟩

namespace OneBlock

/-- a block put in and listed, at once or in two steps, and taken back at once or in two steps -/
theorem add_in_parts : (Document.plain.perform 0 start add).2 = .ok () ∧ add ≠ [] ∧
    ∃ back back' description,
      ((Document.rehearsed .oneByOne false).perform 0 ⟨start, []⟩ add).1.history.undoTimes 7 2 = .ok back ∧
      (Document.plain.perform 0 start add).1.undo 7 = .ok (back', description) ∧ back.SameChanges back' ∧
      back.undos = start.undos ∧ back'.undos = start.undos := by
  have hne : add ≠ [] := by simp [add]
  obtain ⟨-, hundo⟩ := (group_in_parts 0 7 start).2.2.1 add
  obtain ⟨back', description, hback⟩ := ((hundo rfl).2 hne).1 _ rfl
  exact ⟨rfl, hne, _, back', description, rfl, hback⟩

end OneBlock

end History

end Corkboard
