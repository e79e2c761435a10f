/-
How often an edit of an order is tried.

Under the lock a call reads the card, builds its group from that reading and applies it, and a group that is refused as
stale is built again. The loop has no measure of its own: others write to the document between any two of its steps, as
much as they like.

`edit_returns`: whatever others do, the call leaves the lock after four groups at most, and it fails as stale only if
the order was another one at each of four groups than at the reading before.
-/
import Corkboard.Proofs.Desk.Twins

namespace Corkboard

namespace Phase

/-- the next step applies an edit of an order -/
def writesOrder : Phase → Bool
  | writing _ _ _ _ => true
  | _ => false

/-- the lock is left: the edit was written, or the call has failed -/
def LeftLock (edit : OrderEdit) (sequel : Sequel) (p : Phase) : Prop :=
  (∃ order, p = Task.afterEdit edit sequel order) ∨ ∃ x, p = .done (.error x)

/-- the call has failed because an order was stale -/
def EndsStale (p : Phase) : Prop := ∃ id, p = .done (.error (.history (.store (.staleOrder id))))

end Phase

/-- a group that cannot be built misses its block -/
theorem OrderEdit.group_eq_error {e : OrderEdit} {c : Card} {x : CallError} (hg : e.group c = .error x) :
    x = .blockNotFound e.target := by
  unfold OrderEdit.group at hg
  split at hg
  · cases hg
  · cases hg
    rfl

/-- the replacement of a block is never refused as stale -/
theorem History.replacing_not_stale {h : History} {now : Int} {new old : Block} {description : String}
    {x : HistoryError} (hcommit : h.commit now [⟨.updateBlock new old, description⟩] = .error x) : ¬ x.isStale := by
  intro hstale
  obtain ⟨before, m, after, -, -, card, old', new', -, hsplit, -, hchange, -⟩ := History.order_of_stale hcommit hstale
  have hm : m ∈ [(⟨.updateBlock new old, description⟩ : Mutation)] := by rw [hsplit]; simp
  obtain rfl := List.mem_singleton.1 hm
  cases hchange

/-- a call fails as stale when the last of its groups is refused -/
theorem Phase.stale_of_fails {h : History} {w : Ambient} {card id : Uuid} {p : Phase}
    (hf : p.Fails h w card (.history (.store (.staleOrder id)))) :
    ∃ edit sequel attempt c group order, p = .writing edit sequel attempt c ∧ edit.group c = .ok (group, order) ∧
      h.commit w.now group = .error (.store (.staleOrder id)) ∧ orderRetries ≤ attempt := by
  cases p with
  | writing edit sequel attempt c =>
    rcases hf with hg | ⟨group, order, x, hg, hcommit, hlast, hx⟩
    · cases OrderEdit.group_eq_error hg
    · cases hx
      exact ⟨edit, sequel, attempt, c, group, order, rfl, hg, hcommit, Nat.le_of_not_lt fun hlt => hlast ⟨rfl, hlt⟩⟩
  | reading edit sequel attempt =>
    rcases hf with ⟨-, hx⟩ | ⟨c, -, hg⟩
    · cases hx
    · cases OrderEdit.group_eq_error hg
  | replacing new old =>
    obtain ⟨x, hcommit, hx⟩ := hf
    cases hx
    exact absurd rfl (History.replacing_not_stale hcommit)
  | making kind factory index c =>
    obtain ⟨x, -, hx⟩ := hf
    cases hx
  | opening | drafting | seeking | fetching =>
    obtain ⟨-, hx⟩ := hf
    cases hx
  | _ => exact hf.elim

namespace Task

/-! ## One step under the lock -/

variable {w : Ambient} {card : Uuid} {h h' : History} {p' : Phase} {edit : OrderEdit} {sequel : Sequel} {attempt : Nat}

/-- a call that reads goes on to write what it has built, or it fails, and not as stale -/
theorem Acts.of_reading (ha : Acts w card h (.reading edit sequel attempt) h' p') :
    (∃ c, h.store.card? card = some c ∧ p' = .writing edit sequel attempt c) ∨
      (∃ x, p' = .done (.error x)) ∧ ¬ p'.EndsStale := by
  cases ha with
  | quiet hn =>
    cases hn with
    | read hc _ => exact .inl ⟨_, hc, rfl⟩
    | failed hf =>
      refine .inr ⟨⟨_, rfl⟩, ?_⟩
      rintro ⟨id, hid⟩
      cases hid
      obtain ⟨_, _, _, _, _, _, hp, -⟩ := Phase.stale_of_fails hf
      cases hp

/-- a call that writes leaves the lock, or it reads again; either way it is told stale only of an order that has
changed -/
theorem Acts.of_writing {c : Card} (ha : Acts w card h (.writing edit sequel attempt c) h' p') :
    (p'.LeftLock edit sequel ∧
        (p'.EndsStale → orderRetries ≤ attempt ∧
          ∃ c', h.store.card? c.id = some c' ∧ c'.contentOrder ≠ c.contentOrder)) ∨
      (p' = .reading edit sequel (attempt + 1) ∧ attempt < orderRetries ∧
        ∃ c', h.store.card? c.id = some c' ∧ c'.contentOrder ≠ c.contentOrder) := by
  cases ha with
  | quiet hn =>
    cases hn with
    | again hg hcommit hstale hlt => exact .inr ⟨rfl, hlt, OrderEdit.order_of_stale hg hcommit hstale⟩
    | failed hf =>
      refine .inl ⟨.inr ⟨_, rfl⟩, ?_⟩
      rintro ⟨id, hid⟩
      cases hid
      obtain ⟨_, _, _, _, group, order, hp, hg, hcommit, hlast⟩ := Phase.stale_of_fails hf
      cases hp
      exact ⟨hlast, OrderEdit.order_of_stale hg hcommit rfl⟩
  | @edited _ _ _ _ group order _ hg hcommit =>
    refine .inl ⟨.inl ⟨order, rfl⟩, ?_⟩
    rintro ⟨id, hid⟩
    cases edit <;> cases hid

/-! ## All steps under the lock -/

/-- a call after steps of its own; `finds` says what it finds at each step: what the world supplies, and the desk as
others have left it by then -/
def onward (finds : Nat → Ambient × Desk History) (t : Task) : Nat → Task
  | 0 => t
  | k + 1 => ((t.onward finds k).step .plain (finds k).1 (finds k).2).2

/-- an attempt at an edit that others have overtaken: the card is read at one step, and at the next one, where the group
is applied, its order is another one -/
def Overtaken (finds : Nat → Ambient × Desk History) (t : Task) (edit : OrderEdit) (sequel : Sequel)
    (attempt : Nat) : Prop :=
  ∃ c c', (t.onward finds (2 * attempt)).phase = .reading edit sequel attempt ∧
    (finds (2 * attempt)).2.doc.store.card? t.handle.card = some c ∧
    (t.onward finds (2 * attempt + 1)).phase = .writing edit sequel attempt c ∧
    (finds (2 * attempt + 1)).2.doc.store.card? t.handle.card = some c' ∧ c'.contentOrder ≠ c.contentOrder

/-- a call holds the lock for some steps and then leaves it, after an attempt at its edit that comes after others -/
structure Returns (finds : Nat → Ambient × Desk History) (t : Task) (edit : OrderEdit) (sequel : Sequel)
    (last steps : Nat) :
    Prop where
  /-- an attempt is a reading and a group -/
  few : last ≤ orderRetries ∧ steps ≤ 2 * (last + 1)
  holds : ∀ k < steps, (t.onward finds k).phase.holdsLock
  left : (t.onward finds steps).phase.LeftLock edit sequel
  groups : (List.range steps).countP (fun k => (t.onward finds k).phase.writesOrder) ≤ last + 1
  overtaken : ∀ j < last, t.Overtaken finds edit sequel j
  stale : (t.onward finds steps).phase.EndsStale → last = orderRetries ∧ t.Overtaken finds edit sequel last

/-- the call stands at an attempt, and others have overtaken the ones before -/
structure Tries (finds : Nat → Ambient × Desk History) (t : Task) (edit : OrderEdit) (sequel : Sequel)
    (attempt : Nat) : Prop where
  few : attempt ≤ orderRetries
  phase : (t.onward finds (2 * attempt)).phase = .reading edit sequel attempt
  holds : ∀ k < 2 * attempt, (t.onward finds k).phase.holdsLock
  groups : (List.range (2 * attempt)).countP (fun k => (t.onward finds k).phase.writesOrder) ≤ attempt
  overtaken : ∀ j < attempt, t.Overtaken finds edit sequel j

variable {finds : Nat → Ambient × Desk History} {t : Task}

theorem onward_handle (finds : Nat → Ambient × Desk History) (t : Task) (k : Nat) :
    (t.onward finds k).handle = t.handle := by
  induction k with
  | zero => rfl
  | succ k ih => rw [onward, (step_acts _ _ _).1, ih]

theorem onward_acts (finds : Nat → Ambient × Desk History) (t : Task) (k : Nat) :
    Acts (finds k).1 t.handle.card (finds k).2.doc (t.onward finds k).phase
      ((t.onward finds k).step .plain (finds k).1 (finds k).2).1.doc (t.onward finds (k + 1)).phase := by
  have hacts := (step_acts (finds k).1 (finds k).2 (t.onward finds k)).2
  rwa [onward_handle] at hacts

/-- **One attempt**: the call leaves the lock, or it stands at the next attempt. -/
theorem Tries.next (ht : t.Tries finds edit sequel attempt) :
    (∃ steps, t.Returns finds edit sequel attempt steps) ∨ t.Tries finds edit sequel (attempt + 1) := by
  have hholds : ∀ k < 2 * attempt + 1, (t.onward finds k).phase.holdsLock :=
    Nat.forall_lt_succ_right.2 ⟨ht.holds, by rw [ht.phase]; rfl⟩
  have hgroups : (List.range (2 * attempt + 1)).countP (fun k => (t.onward finds k).phase.writesOrder) ≤ attempt := by
    rw [List.range_succ, List.countP_append, List.countP_singleton, ht.phase]
    exact ht.groups
  have hread := onward_acts finds t (2 * attempt)
  rw [ht.phase] at hread
  rcases hread.of_reading with ⟨c, hc, hp⟩ | ⟨hleft, hfresh⟩
  · have hholds' : ∀ k < 2 * attempt + 2, (t.onward finds k).phase.holdsLock :=
      Nat.forall_lt_succ_right.2 ⟨hholds, by rw [hp]; rfl⟩
    have hgroups' :
        (List.range (2 * attempt + 2)).countP (fun k => (t.onward finds k).phase.writesOrder) ≤ attempt + 1 := by
      rw [List.range_succ, List.countP_append, List.countP_singleton, hp]
      exact Nat.succ_le_succ hgroups
    have hwrite := onward_acts finds t (2 * attempt + 1)
    rw [hp] at hwrite
    have hovertaken :
        (∃ c', (finds (2 * attempt + 1)).2.doc.store.card? c.id = some c' ∧ c'.contentOrder ≠ c.contentOrder) →
          t.Overtaken finds edit sequel attempt := by
      rintro ⟨c', hc', ho⟩
      rw [Store.id_of_card? hc] at hc'
      exact ⟨c, c', ht.phase, hc, hp, hc', ho⟩
    rcases hwrite.of_writing with ⟨hleft, hstale⟩ | ⟨hagain, hlt, hchanged⟩
    · refine .inl ⟨2 * attempt + 2, ⟨ht.few, Nat.le_refl _⟩, hholds', hleft, hgroups', ht.overtaken, fun he => ?_⟩
      obtain ⟨hlast, hchanged⟩ := hstale he
      exact ⟨Nat.le_antisymm ht.few hlast, hovertaken hchanged⟩
    · exact .inr ⟨hlt, hagain, hholds', hgroups', Nat.forall_lt_succ_right.2 ⟨ht.overtaken, hovertaken hchanged⟩⟩
  · exact .inl ⟨2 * attempt + 1, ⟨ht.few, Nat.le_succ _⟩, hholds, .inr hleft, Nat.le_succ_of_le hgroups, ht.overtaken,
      fun he => (hfresh he).elim⟩

/-- **An edit returns**, with four groups at most, whatever the call finds at its steps. -/
theorem edit_returns (finds : Nat → Ambient × Desk History) (hp : t.phase = .reading edit sequel 0) :
    ∃ last steps, t.Returns finds edit sequel last steps := by
  -- with one attempt more than are allowed the call would not stand anywhere
  suffices h : ∀ n, (∃ last steps, t.Returns finds edit sequel last steps) ∨ t.Tries finds edit sequel n by
    rcases h (orderRetries + 1) with hreturns | ht
    · exact hreturns
    · exact absurd ht.few (Nat.not_succ_le_self _)
  intro n
  induction n with
  | zero => exact .inr ⟨Nat.zero_le _, hp, nofun, Nat.zero_le _, nofun⟩
  | succ n ih =>
    rcases ih with hreturns | ht
    · exact .inl hreturns
    · rcases ht.next with ⟨steps, hreturns⟩ | ht
      · exact .inl ⟨n, steps, hreturns⟩
      · exact .inr ht

end Task

end Corkboard
