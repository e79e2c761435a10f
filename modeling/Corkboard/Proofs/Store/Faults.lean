/-
Which violation of an order is reported.

The check of an order goes through its entries with the set of those it has seen, and stops at the first that will not
do. An entry can be at fault in three ways: it repeats an earlier one, it names no block, or its block belongs to
another card. So which of them does a caller hear of, and is an order refused for anything else?

- `consistent_iff_not_violates`: an order is consistent exactly when no entry is at fault;
- `firstFault_of_checkEntries`: what stops the check is the fault at the smallest place;
- `order_faults_exactly`: the check and the swap of an order, with every error that either can give.
-/
import Corkboard.Proofs.Store.Writes
import Mathlib.Data.List.Nodup

namespace Corkboard

/-- which fault counts first where an entry has several -/
def OrderFault.rank : OrderFault → Nat
  | cardNotFound _ => 0
  | duplicateEntry _ => 1
  | strayEntry _ => 2
  | wrongParent _ _ _ => 3

namespace Store

variable {s : Store} {card id : Uuid} {order before rest seen : List Uuid} {i j : Nat} {fault fault' : OrderFault}

/-! ## Faults of entries -/

/-- the entry at a place of an order is at fault -/
inductive Violates (s : Store) (card : Uuid) (order : List Uuid) (i : Nat) : OrderFault → Prop
  | repeated {id : Uuid} {j : Nat} : order[i]? = some id → j < i → order[j]? = some id →
      Violates s card order i (.duplicateEntry id)
  | stray {id : Uuid} : order[i]? = some id → s.block? id = none → Violates s card order i (.strayEntry id)
  | foreign {id : Uuid} {b : Block} : order[i]? = some id → s.block? id = some b → b.parentId ≠ card →
      Violates s card order i (.wrongParent id card b.parentId)

/-- the fault at the smallest place where an entry is at fault, and the foremost one there -/
structure FirstFault (s : Store) (card : Uuid) (order : List Uuid) (i : Nat) (fault : OrderFault) : Prop where
  violates : s.Violates card order i fault
  smallest : ∀ j < i, ∀ f, ¬ s.Violates card order j f
  foremost : ∀ f, s.Violates card order i f → fault.rank ≤ f.rank

theorem Violates.getElem? (hv : s.Violates card order i fault) : ∃ id, order[i]? = some id := by
  cases hv with
  | repeated hid _ _ | stray hid _ | foreign hid _ _ => exact ⟨_, hid⟩

/-- what is at fault in the beginning of an order does not depend on how it goes on -/
theorem Violates.of_append (hv : s.Violates card (before ++ rest) i fault) (hi : i < before.length) :
    s.Violates card before i fault := by
  cases hv with
  | repeated hid hj hid' =>
    rw [List.getElem?_append_left hi] at hid
    rw [List.getElem?_append_left (Nat.lt_trans hj hi)] at hid'
    exact .repeated hid hj hid'
  | stray hid hb =>
    rw [List.getElem?_append_left hi] at hid
    exact .stray hid hb
  | foreign hid hb hp =>
    rw [List.getElem?_append_left hi] at hid
    exact .foreign hid hb hp

/-- An order is consistent exactly when no entry is at fault. -/
theorem consistent_iff_not_violates : s.Consistent card order ↔ ∀ i fault, ¬ s.Violates card order i fault := by
  constructor
  · intro hcons i fault hv
    cases hv with
    | @repeated id j hid hj hid' =>
      have hlt : i < order.length := (List.getElem?_eq_some_iff.1 hid).1
      exact List.nodup_iff_getElem?_ne_getElem?.1 hcons.nodup j i hj hlt (hid'.trans hid.symm)
    | @stray id hid hb =>
      obtain ⟨b, hb', -⟩ := hcons.owned id (List.mem_of_getElem? hid)
      rw [hb] at hb'
      cases hb'
    | @foreign id b hid hb hp =>
      obtain ⟨b', hb', hp'⟩ := hcons.owned id (List.mem_of_getElem? hid)
      rw [hb] at hb'
      cases hb'
      exact hp hp'
  · intro hnone
    constructor
    · refine List.nodup_iff_getElem?_ne_getElem?.2 fun j i hj hi hsame => ?_
      have hid : order[i]? = some order[i] := List.getElem?_eq_getElem hi
      exact hnone i _ (.repeated hid hj (hsame.trans hid))
    · intro id hmem
      obtain ⟨i, hid⟩ := List.mem_iff_getElem?.1 hmem
      cases hb : s.block? id with
      | none => exact absurd (.stray hid hb) (hnone i _)
      | some b =>
        by_cases hp : b.parentId = card
        · exact ⟨b, rfl, hp⟩
        · exact absurd (.foreign hid hb hp) (hnone i _)

/-- Only one fault comes first. -/
theorem FirstFault.unique (hf : s.FirstFault card order i fault) (hf' : s.FirstFault card order j fault') :
    fault = fault' := by
  have hij : i = j := by
    rcases Nat.lt_trichotomy i j with hlt | heq | hlt
    · exact absurd hf.violates (hf'.smallest i hlt fault)
    · exact heq
    · exact absurd hf'.violates (hf.smallest j hlt fault')
  subst hij
  have hrank : fault.rank = fault'.rank := Nat.le_antisymm (hf.foremost _ hf'.violates) (hf'.foremost _ hf.violates)
  obtain ⟨id, hid⟩ := hf.violates.getElem?
  cases hf.violates with
  | repeated hid₁ _ _ =>
    cases hf'.violates with
    | repeated hid₂ _ _ =>
      cases hid₁.symm.trans hid₂
      rfl
    | stray | foreign => simp [OrderFault.rank] at hrank
  | stray hid₁ _ =>
    cases hf'.violates with
    | stray hid₂ _ =>
      cases hid₁.symm.trans hid₂
      rfl
    | repeated | foreign => simp [OrderFault.rank] at hrank
  | foreign hid₁ hb₁ _ =>
    cases hf'.violates with
    | foreign hid₂ hb₂ _ =>
      cases hid₁.symm.trans hid₂
      cases hb₁.symm.trans hb₂
      rfl
    | repeated | stray => simp [OrderFault.rank] at hrank

/-! ## The check -/

/-- behind entries that are in order, a fault comes first when no other at its place counts before it -/
theorem Violates.first (hv : s.Violates card (before ++ rest) before.length fault) (hcons : s.Consistent card before)
    (hforemost : ∀ f, s.Violates card (before ++ rest) before.length f → fault.rank ≤ f.rank) :
    s.FirstFault card (before ++ rest) before.length fault :=
  ⟨hv, fun j hj f hvj => consistent_iff_not_violates.1 hcons j f (hvj.of_append hj), hforemost⟩

theorem not_repeated (hnew : id ∉ before) (hj : j < before.length) : (before ++ id :: rest)[j]? ≠ some id := by
  rw [List.getElem?_append_left hj]
  exact fun hid => hnew (List.mem_of_getElem? hid)

/-- What stops the check of an order is the fault that comes first. The entries before are in order, and they are the
ones that were seen. -/
theorem firstFault_of_checkEntries (hcheck : s.checkEntries card seen rest = .error fault)
    (hseen : ∀ x, x ∈ seen ↔ x ∈ before) (hcons : s.Consistent card before) :
    ∃ i, s.FirstFault card (before ++ rest) i fault := by
  induction rest generalizing seen before with
  | nil => cases hcheck
  | cons id rest ih =>
    have hid : (before ++ id :: rest)[before.length]? = some id := by simp
    simp only [checkEntries] at hcheck
    split at hcheck
    case isTrue hmem =>
      cases hcheck
      obtain ⟨j, hj⟩ := List.mem_iff_getElem?.1 ((hseen id).1 hmem)
      have hlt : j < before.length := (List.getElem?_eq_some_iff.1 hj).1
      have hj' : (before ++ id :: rest)[j]? = some id := by rw [List.getElem?_append_left hlt, hj]
      refine ⟨before.length, Violates.first (.repeated hid hlt hj') hcons fun f hf => ?_⟩
      cases hf <;> simp [OrderFault.rank]
    case isFalse hmem =>
      have hnew : id ∉ before := fun h => hmem ((hseen id).2 h)
      split at hcheck
      case h_1 hb =>
        cases hcheck
        refine ⟨before.length, Violates.first (.stray hid hb) hcons fun f hf => ?_⟩
        cases hf with
        | repeated hid' hj hj' =>
          cases hid.symm.trans hid'
          exact absurd hj' (not_repeated hnew hj)
        | stray | foreign => simp [OrderFault.rank]
      case h_2 b hb =>
        split at hcheck
        case isTrue hp =>
          have hcons' : s.Consistent card (before ++ [id]) := by
            refine ⟨List.nodup_append.2 ⟨hcons.nodup, List.nodup_singleton id, fun x hx y hy => ?_⟩, fun x hx => ?_⟩
            · obtain rfl := List.mem_singleton.1 hy
              exact fun he => hnew (he ▸ hx)
            · rcases List.mem_append.1 hx with hx | hx
              · exact hcons.owned x hx
              · obtain rfl := List.mem_singleton.1 hx
                exact ⟨b, hb, hp⟩
          have hseen' : ∀ x, x ∈ id :: seen ↔ x ∈ before ++ [id] := fun x => by
            rw [List.mem_cons, List.mem_append, List.mem_singleton, hseen x, or_comm]
          obtain ⟨i, hi⟩ := ih hcheck hseen' hcons'
          rw [List.append_assoc, List.singleton_append] at hi
          exact ⟨i, hi⟩
        case isFalse hp =>
          cases hcheck
          refine ⟨before.length, Violates.first (.foreign hid hb hp) hcons fun f hf => ?_⟩
          cases hf with
          | repeated hid' hj hj' =>
            cases hid.symm.trans hid'
            exact absurd hj' (not_repeated hnew hj)
          | stray hid' hb' =>
            cases hid.symm.trans hid'
            rw [hb] at hb'
            cases hb'
          | foreign => exact Nat.le_refl _

/-- The check of a list of entries reports the fault that comes first. -/
theorem checkEntries_eq_error_iff :
    s.checkEntries card [] order = .error fault ↔ ∃ i, s.FirstFault card order i fault := by
  have hnone : s.Consistent card [] := ⟨List.nodup_nil, by simp⟩
  have hreported : ∀ {f}, s.checkEntries card [] order = .error f → ∃ i, s.FirstFault card order i f := fun hcheck =>
    firstFault_of_checkEntries hcheck (fun x => Iff.rfl) hnone
  constructor
  · exact hreported
  · intro hfirst
    obtain ⟨i, hfirst⟩ := hfirst
    cases hcheck : s.checkEntries card [] order with
    | ok =>
      have hcons : s.Consistent card order := ((checkEntries_eq_ok_iff s card [] order).1 hcheck).1
      exact absurd hfirst.violates (consistent_iff_not_violates.1 hcons i fault)
    | error f =>
      obtain ⟨j, hfirst'⟩ := hreported hcheck
      rw [hfirst'.unique hfirst]

/-! ## The swap -/

/-- why the order of a card is not swapped -/
inductive Refuses (s : Store) (card : Uuid) (expected order : List Uuid) : StoreError → Prop
  | absent : s.card? card = none → Refuses s card expected order (.cardNotFound card)
  | stale {c : Card} : s.card? card = some c → c.contentOrder ≠ expected →
      Refuses s card expected order (.staleOrder card)
  | faulty {c : Card} {i : Nat} {fault : OrderFault} : s.card? card = some c → c.contentOrder = expected →
      s.FirstFault card order i fault → Refuses s card expected order (.invalidOrder fault)

/-- A refused swap leaves the store as it was. -/
theorem swapOrderInPlace_eq_error_iff {s' : Store} {expected : List Uuid} {e : StoreError} :
    s.swapOrderInPlace card expected order = (s', .error e) ↔ s' = s ∧ s.Refuses card expected order e := by
  rw [swapOrderInPlace_eq]
  constructor
  · intro hswap
    cases hc : s.card? card with
    | none =>
      simp only [hc] at hswap
      cases hswap
      exact ⟨rfl, .absent hc⟩
    | some c =>
      simp only [hc] at hswap
      split at hswap
      case isTrue hexp =>
        cases hswap
        exact ⟨rfl, .stale hc hexp⟩
      case isFalse hexp =>
        split at hswap
        · cases hswap
        · rename_i fault hcheck
          cases hswap
          obtain ⟨i, hfirst⟩ := checkEntries_eq_error_iff.1 hcheck
          exact ⟨rfl, .faulty hc (Classical.not_not.1 hexp) hfirst⟩
  · rintro ⟨rfl, hrefuses⟩
    cases hrefuses with
    | absent hc => simp only [hc]
    | stale hc hexp => simp only [hc, ne_eq, hexp, not_false_eq_true, if_true]
    | faulty hc hexp hfirst =>
      simp only [hc, ne_eq, hexp, not_true_eq_false, if_false, checkEntries_eq_error_iff.2 ⟨_, hfirst⟩]

/-- A swap that is made changes the order of the card, and nothing else. -/
theorem swapOrderInPlace_eq_ok_iff {s' : Store} {expected previous : List Uuid} :
    s.swapOrderInPlace card expected order = (s', .ok previous) ↔
      ∃ c, s.card? card = some c ∧ c.contentOrder = expected ∧ s.Consistent card order ∧ previous = c.contentOrder ∧
        (∀ id, s'.card? id = if id = card then some { c with contentOrder := order } else s.card? id) ∧
        ∀ id, s'.block? id = s.block? id := by
  have hplace : s.swapOrderInPlace card expected order = (s', .ok previous) ↔
      s.swapOrder card expected order = .ok (s', previous) := by
    unfold swapOrder
    rcases s.swapOrderInPlace card expected order with ⟨s₁, e | order₁⟩ <;> simp
  rw [hplace, swapOrder_eq_ok_iff]
  constructor
  · rintro ⟨c, hc, hexp, rfl, hcons, rfl⟩
    refine ⟨c, hc, hexp, hcons, hexp.symm, fun id => ?_, fun id => rfl⟩
    rw [card?_putCard]
    simp only [id_of_card? hc]
  · rintro ⟨c, hc, hexp, hcons, rfl, hcards, hblocks⟩
    refine ⟨c, hc, hexp, hexp, hcons, ext_lookups (fun id => ?_) hblocks⟩
    rw [hcards, card?_putCard]
    simp only [id_of_card? hc]

/-- **What is wrong with an order, exactly.** The check of a card finds nothing when the card is there, no entry of its
order repeats and each names a block of the card; otherwise it reports the fault at the smallest place, a repeated entry
before a stray one and that before a block of another card. A swap is made exactly when the card is there, its order is
the expected one and the new order would pass the check; then that order is all that changes, and the one before is
given back. Otherwise nothing changes, and the error tells the first of the three that fails. -/
theorem order_faults_exactly (s : Store) (card : Uuid) :
    (s.checkOrder card = .ok () ↔ ∃ c, s.card? card = some c ∧ s.Consistent card c.contentOrder) ∧
    (∀ fault, s.checkOrder card = .error fault ↔ (s.card? card = none ∧ fault = .cardNotFound card) ∨
      ∃ c i, s.card? card = some c ∧ s.FirstFault card c.contentOrder i fault) ∧
    ∀ (expected order : List Uuid) (s' : Store),
      (∀ previous, s.swapOrderInPlace card expected order = (s', .ok previous) ↔
        ∃ c, s.card? card = some c ∧ c.contentOrder = expected ∧ s.Consistent card order ∧ previous = c.contentOrder ∧
          (∀ id, s'.card? id = if id = card then some { c with contentOrder := order } else s.card? id) ∧
          ∀ id, s'.block? id = s.block? id) ∧
      ∀ e, s.swapOrderInPlace card expected order = (s', .error e) ↔ s' = s ∧ s.Refuses card expected order e := by
  refine ⟨s.checkOrder_eq_ok_iff card, fun fault => ?_, fun expected order s' =>
    ⟨fun previous => swapOrderInPlace_eq_ok_iff, fun e => swapOrderInPlace_eq_error_iff⟩⟩
  unfold checkOrder
  cases hc : s.card? card with
  | none => simp [eq_comm]
  | some c => simp [id_of_card? hc, checkEntries_eq_error_iff]

end Store

end Corkboard
