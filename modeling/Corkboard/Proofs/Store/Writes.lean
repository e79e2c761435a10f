/-
What the writes of the store do.

A write is described by look-ups: which card and which block stands under an identifier afterwards. For each operation
that can be refused there is one equivalence that says exactly when it succeeds and with which store, so nothing later
has to open an operation.

- `insertBlock_eq_ok_iff`, `updateBlock_eq_ok_iff`, `removeBlock_eq_ok_iff`: the writes of blocks;
- `updateCard_eq_ok_iff`, `setProperty_eq_ok_iff`: the writes of a card's fields;
- `swapOrderInPlace_eq`, `swapOrder_eq_ok_iff`: the order of a card changes exactly when it is the expected one and the
  new one is consistent, and a swap that is refused leaves nothing of the new order;
- `checkOrder_eq_ok_iff`: the check of an order finds nothing exactly when the order is consistent.
-/
import Corkboard.Store

namespace Corkboard

theorem bind_eq_ok_iff {ε α β : Type} (x : Except ε α) (f : α → Except ε β) (b : β) :
    (x >>= f) = .ok b ↔ ∃ a, x = .ok a ∧ f a = .ok b := by
  cases x <;> simp [bind, Except.bind]

namespace Store

/-! ## Look-ups -/

section Lookups

variable (s : Store) (id : Uuid)

@[simp, grind =] theorem card?_empty : empty.card? id = none := rfl

@[simp, grind =] theorem block?_empty : empty.block? id = none := rfl

@[grind =] theorem card?_putCard (c : Card) : (s.putCard c).card? id = if id = c.id then some c else s.card? id :=
  Table.get?_insert s.cards c.id id c

@[simp, grind =] theorem block?_putCard (c : Card) : (s.putCard c).block? id = s.block? id := rfl

@[simp, grind =] theorem card?_putBlock (b : Block) : (s.putBlock b).card? id = s.card? id := rfl

@[grind =] theorem block?_putBlock (b : Block) :
    (s.putBlock b).block? id = if id = b.id then some b else s.block? id :=
  Table.get?_insert s.blocks b.id id b

@[simp, grind =] theorem card?_dropBlock (b : Uuid) : (s.dropBlock b).card? id = s.card? id := rfl

@[grind =] theorem block?_dropBlock (b : Uuid) :
    (s.dropBlock b).block? id = if id = b then none else s.block? id :=
  Table.get?_erase s.blocks b id

@[grind →] theorem id_of_card? {s : Store} {id : Uuid} {c : Card} (h : s.card? id = some c) : c.id = id :=
  s.cardKeys id c h

@[grind →] theorem id_of_block? {s : Store} {id : Uuid} {b : Block} (h : s.block? id = some b) : b.id = id :=
  s.blockKeys id b h

theorem ext_lookups {s t : Store} (hc : ∀ id, s.card? id = t.card? id) (hb : ∀ id, s.block? id = t.block? id) :
    s = t := by
  have hcards : s.cards = t.cards := Table.ext_get? hc
  have hblocks : s.blocks = t.blocks := Table.ext_get? hb
  cases s; cases t
  simp_all

/-! ## Writes that cancel -/

theorem putCard_putCard {s : Store} {c c' : Card} (hc : s.card? c.id = some c) (hid : c'.id = c.id) :
    (s.putCard c').putCard c = s := by
  refine ext_lookups (fun id => ?_) (fun id => rfl)
  rw [card?_putCard, card?_putCard, hid]
  split
  · rename_i he; rw [he, hc]
  · rfl

theorem putBlock_putBlock {s : Store} {b b' : Block} (hb : s.block? b.id = some b) (hid : b'.id = b.id) :
    (s.putBlock b').putBlock b = s := by
  refine ext_lookups (fun id => rfl) (fun id => ?_)
  rw [block?_putBlock, block?_putBlock, hid]
  split
  · rename_i he; rw [he, hb]
  · rfl

theorem dropBlock_putBlock {s : Store} {b : Block} (hb : s.block? b.id = none) : (s.putBlock b).dropBlock b.id = s := by
  refine ext_lookups (fun id => rfl) (fun id => ?_)
  rw [block?_dropBlock, block?_putBlock]
  split
  · rename_i he; rw [he, hb]
  · rfl

theorem putBlock_dropBlock {s : Store} {b : Block} (hb : s.block? b.id = some b) :
    (s.dropBlock b.id).putBlock b = s := by
  refine ext_lookups (fun id => rfl) (fun id => ?_)
  rw [block?_putBlock, block?_dropBlock]
  split
  · rename_i he; rw [he, hb]
  · rfl

/-! ## Writes that come to nothing -/

theorem putCard_self {s : Store} {c : Card} (hc : s.card? c.id = some c) : s.putCard c = s := by
  refine ext_lookups (fun x => ?_) (fun _ => rfl)
  rw [card?_putCard]
  split
  · rename_i hx
    rw [hx, hc]
  · rfl

theorem putBlock_self {s : Store} {b : Block} {id : Uuid} (hb : s.block? id = some b) : s.putBlock b = s := by
  refine ext_lookups (fun _ => rfl) fun x => ?_
  rw [block?_putBlock, id_of_block? hb]
  split
  · rename_i hx
    rw [hx, hb]
  · rfl

theorem putBlock_overwrite {s : Store} {b b' : Block} (hid : b'.id = b.id) :
    (s.putBlock b').putBlock b = s.putBlock b := by
  refine ext_lookups (fun _ => rfl) fun x => ?_
  simp only [block?_putBlock, hid]
  split <;> rfl

end Lookups

/-! ## Cards and blocks that a write needs -/

theorem needCard_eq_ok_iff (s : Store) (id : Uuid) (c : Card) : s.needCard id = .ok c ↔ s.card? id = some c := by
  unfold needCard
  cases s.card? id <;> simp

theorem needBlock_eq_ok_iff (s : Store) (id : Uuid) (b : Block) : s.needBlock id = .ok b ↔ s.block? id = some b := by
  unfold needBlock
  cases s.block? id <;> simp

/-! ## Writes of blocks -/

theorem insertBlock_eq_ok_iff (s s' : Store) (b : Block) :
    s.insertBlock b = .ok s' ↔ s.block? b.id = none ∧ (s.card? b.parentId).isSome ∧ s' = s.putBlock b := by
  have hb : s.blocks.contains b.id = (s.block? b.id).isSome := rfl
  have hc : s.cards.contains b.parentId = (s.card? b.parentId).isSome := rfl
  unfold insertBlock
  rw [hb, hc]
  cases s.block? b.id <;> cases s.card? b.parentId <;> simp [eq_comm]

theorem updateBlock_eq_ok_iff (s s' : Store) (now : Int) (b old : Block) :
    s.updateBlock now b = .ok (s', old) ↔ s.block? b.id = some old ∧ s' = s.putBlock { b with updatedAt := now } := by
  simp only [updateBlock, bind_eq_ok_iff, needBlock_eq_ok_iff, Except.ok.injEq, Prod.mk.injEq]
  constructor
  · intro h
    obtain ⟨_, h, rfl, rfl⟩ := h
    exact ⟨h, rfl⟩
  · intro h
    obtain ⟨h, rfl⟩ := h
    exact ⟨old, h, rfl, rfl⟩

theorem removeBlock_eq_ok_iff (s s' : Store) (id : Uuid) (old : Block) :
    s.removeBlock id = .ok (s', old) ↔ s.block? id = some old ∧ s' = s.dropBlock id := by
  simp only [removeBlock, bind_eq_ok_iff, needBlock_eq_ok_iff, Except.ok.injEq, Prod.mk.injEq]
  constructor
  · intro h
    obtain ⟨_, h, rfl, rfl⟩ := h
    exact ⟨h, rfl⟩
  · intro h
    obtain ⟨h, rfl⟩ := h
    exact ⟨old, h, rfl, rfl⟩

/-! ## Writes of cards -/

theorem updateCard_eq_ok_iff (s s' : Store) (c old : Card) :
    s.updateCard c = .ok (s', old) ↔
      s.card? c.id = some old ∧ s' = s.putCard { old with title := c.title, properties := c.properties } := by
  simp only [updateCard, bind_eq_ok_iff, needCard_eq_ok_iff, Except.ok.injEq, Prod.mk.injEq]
  constructor
  · intro h
    obtain ⟨_, h, rfl, rfl⟩ := h
    exact ⟨h, rfl⟩
  · intro h
    obtain ⟨h, rfl⟩ := h
    exact ⟨old, h, rfl, rfl⟩

theorem setProperty_eq_ok_iff (s s' : Store) (card : Uuid) (templateId : String) (v previous : Option Json) :
    s.setProperty card templateId v = .ok (s', previous) ↔
      ∃ c, s.card? card = some c ∧ previous = c.property? templateId ∧
        s' = s.putCard { c with properties := c.properties.alter templateId v } := by
  simp only [setProperty, bind_eq_ok_iff, needCard_eq_ok_iff, Except.ok.injEq, Prod.mk.injEq]
  constructor
  · intro h
    obtain ⟨c, h, rfl, rfl⟩ := h
    exact ⟨c, h, rfl, rfl⟩
  · intro h
    obtain ⟨c, h, rfl, rfl⟩ := h
    exact ⟨c, h, rfl, rfl⟩

/-! ## The order of a card -/

/-- the check of a list of entries finds nothing when no entry repeats, none was seen before, and each names a block of
the card -/
theorem checkEntries_eq_ok_iff (s : Store) (card : Uuid) (seen entries : List Uuid) :
    s.checkEntries card seen entries = .ok () ↔ s.Consistent card entries ∧ ∀ id ∈ entries, id ∉ seen := by
  induction entries generalizing seen with
  | nil => simp only [checkEntries, true_iff]; exact ⟨⟨List.nodup_nil, by simp⟩, by simp⟩
  | cons id rest ih =>
    unfold checkEntries
    split
    case isTrue hseen =>
      simp only [reduceCtorEq, false_iff]
      exact fun h => h.2 id List.mem_cons_self hseen
    case isFalse hseen =>
      split
      case h_1 hnone =>
        simp only [reduceCtorEq, false_iff]
        intro h
        obtain ⟨h, -⟩ := h
        obtain ⟨b, hb, -⟩ := h.owned id List.mem_cons_self
        rw [hnone] at hb; cases hb
      case h_2 b hb =>
        split
        case isTrue hparent =>
          rw [ih]
          constructor
          · intro h
            obtain ⟨h, hfresh⟩ := h
            refine ⟨⟨List.nodup_cons.2 ⟨fun hm => hfresh id hm List.mem_cons_self, h.nodup⟩, ?_⟩, ?_⟩
            · intro x hx
              rcases List.mem_cons.1 hx with rfl | hx
              · exact ⟨b, hb, hparent⟩
              · exact h.owned x hx
            · intro x hx
              rcases List.mem_cons.1 hx with rfl | hx
              · exact hseen
              · exact fun hm => hfresh x hx (List.mem_cons_of_mem _ hm)
          · intro h
            obtain ⟨h, hfresh⟩ := h
            obtain ⟨hid, hnodup⟩ := List.nodup_cons.1 h.nodup
            refine ⟨⟨hnodup, fun x hx => h.owned x (List.mem_cons_of_mem _ hx)⟩, fun x hx hm => ?_⟩
            rcases List.mem_cons.1 hm with rfl | hm
            · exact hid hx
            · exact hfresh x (List.mem_cons_of_mem _ hx) hm
        case isFalse hparent =>
          simp only [reduceCtorEq, false_iff]
          intro h
          obtain ⟨h, -⟩ := h
          obtain ⟨b', hb', hb'p⟩ := h.owned id List.mem_cons_self
          rw [hb] at hb'; cases hb'
          exact hparent hb'p

/-- The check of a card finds nothing exactly when the card is there and its order is consistent. -/
theorem checkOrder_eq_ok_iff (s : Store) (card : Uuid) :
    s.checkOrder card = .ok () ↔ ∃ c, s.card? card = some c ∧ s.Consistent card c.contentOrder := by
  unfold checkOrder
  cases hc : s.card? card with
  | none => simp
  | some c => simp [checkEntries_eq_ok_iff, id_of_card? hc]

theorem setOrder_eq {s : Store} {card : Uuid} {c : Card} (hc : s.card? card = some c) (order : List Uuid) :
    s.setOrder card order = .ok (s.putCard { c with contentOrder := order }, c.contentOrder) := by
  rw [setOrder, (needCard_eq_ok_iff _ _ _).2 hc]
  rfl

theorem checkEntries_putCard (s : Store) (c : Card) (card : Uuid) (seen entries : List Uuid) :
    (s.putCard c).checkEntries card seen entries = s.checkEntries card seen entries := by
  induction entries generalizing seen with
  | nil => rfl
  | cons id rest ih => simp only [checkEntries, block?_putCard, ih]

/-- **A swap tests the order that it is given**, although that order is already in the store when it is tested. A swap
that is refused leaves the store as it was. -/
theorem swapOrderInPlace_eq (s : Store) (card : Uuid) (expected order : List Uuid) :
    s.swapOrderInPlace card expected order =
      match s.card? card with
      | none => (s, .error (.cardNotFound card))
      | some c =>
        if c.contentOrder ≠ expected then (s, .error (.staleOrder card))
        else
          match s.checkEntries card [] order with
          | .ok () => (s.putCard { c with contentOrder := order }, .ok expected)
          | .error fault => (s, .error (.invalidOrder fault)) := by
  cases hc : s.card? card with
  | none =>
    have hneed : s.needCard card = .error (.cardNotFound card) := by simp only [needCard, hc]
    simp only [swapOrderInPlace, hneed]
  | some c =>
    have hid : c.id = card := id_of_card? hc
    have hneed : s.needCard card = .ok c := (needCard_eq_ok_iff _ _ _).2 hc
    by_cases hexp : c.contentOrder = expected
    case neg => simp only [swapOrderInPlace, hneed, ne_eq, hexp, not_false_eq_true, if_true]
    case pos =>
      subst hexp
      have hwrite := setOrder_eq hc order
      have hwritten :
          (s.putCard { c with contentOrder := order }).card? card = some { c with contentOrder := order } := by
        rw [card?_putCard, if_pos hid.symm]
      have hcheck : (s.putCard { c with contentOrder := order }).checkOrder card = s.checkEntries card [] order := by
        rw [checkOrder, hwritten]
        dsimp only
        rw [hid, checkEntries_putCard]
      simp only [swapOrderInPlace, hneed, ne_eq, not_true_eq_false, if_false, hwrite, hcheck]
      cases s.checkEntries card [] order with
      | ok => rfl
      | error fault =>
        have hback : s.card? c.id = some c := by rw [hid, hc]
        simp only [setOrder_eq hwritten c.contentOrder]
        exact congrArg (·, _) (putCard_putCard hback rfl)

/-- **A swap is made, or leaves nothing.** The order changes exactly when the card is there, its order is the expected
one and the new one is consistent. Otherwise the store is left as it was, although the new order may have been in it. -/
theorem swapOrderInPlace_cases (s : Store) (card : Uuid) (expected order : List Uuid) :
    (∃ c, s.card? card = some c ∧ c.contentOrder = expected ∧ s.Consistent card order ∧
      s.swapOrderInPlace card expected order = (s.putCard { c with contentOrder := order }, .ok expected)) ∨
    ((∀ c, s.card? card = some c → c.contentOrder = expected → ¬ s.Consistent card order) ∧
      ∃ e, s.swapOrderInPlace card expected order = (s, .error e)) := by
  rw [swapOrderInPlace_eq]
  cases hc : s.card? card with
  | none => exact .inr ⟨by simp, .cardNotFound card, rfl⟩
  | some c =>
    dsimp only
    split
    case isTrue hexp => exact .inr ⟨fun c' hc' ho => absurd (Option.some.inj hc' ▸ ho) hexp, .staleOrder card, rfl⟩
    case isFalse hexp =>
      cases hcheck : s.checkEntries card [] order with
      | ok =>
        have hcons : s.Consistent card order := ((checkEntries_eq_ok_iff s card [] order).1 hcheck).1
        exact .inl ⟨c, rfl, Classical.not_not.1 hexp, hcons, rfl⟩
      | error fault =>
        refine .inr ⟨fun _ _ _ hcons => ?_, .invalidOrder fault, rfl⟩
        rw [(checkEntries_eq_ok_iff s card [] order).2 ⟨hcons, by simp⟩] at hcheck
        cases hcheck

/-- The order of a card changes exactly when it is the expected one and the new one is consistent. -/
theorem swapOrder_eq_ok_iff (s s' : Store) (card : Uuid) (expected order previous : List Uuid) :
    s.swapOrder card expected order = .ok (s', previous) ↔
      ∃ c, s.card? card = some c ∧ c.contentOrder = expected ∧ previous = expected ∧ s.Consistent card order ∧
        s' = s.putCard { c with contentOrder := order } := by
  rcases s.swapOrderInPlace_cases card expected order with ⟨c, hc, hexp, hcons, hswap⟩ | ⟨hnot, e, hswap⟩
  · simp only [swapOrder, hswap, Except.ok.injEq, Prod.mk.injEq]
    constructor
    · intro h
      obtain ⟨rfl, rfl⟩ := h
      exact ⟨c, hc, hexp, rfl, hcons, rfl⟩
    · intro h
      obtain ⟨c', hc', -, rfl, -, rfl⟩ := h
      cases hc.symm.trans hc'
      exact ⟨rfl, rfl⟩
  · simp only [swapOrder, hswap, reduceCtorEq, false_iff]
    intro h
    obtain ⟨c, hc, hexp, -, hcons, -⟩ := h
    exact hnot c hc hexp hcons

end Store

end Corkboard
