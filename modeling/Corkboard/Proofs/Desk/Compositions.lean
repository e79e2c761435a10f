/-
Compositions and additions side by side.

A composition saves its lines one after the other, each as a group of its own, and counts the places from the index it
was given. What is added in front in the meantime moves the lines that are saved already, but not the place of the next
one.

- `compose_in_order_iff`: the blocks of a composition stand in the order of their lines exactly if each of them, when it
  was saved, found all earlier ones in front of its place. So they do when nothing reaches beyond the index, as at the
  end of a card. Those of a finished composition are one for each draft of its lines.
- `addition_reverses_lines`: one block added at the head of a card between two lines, which end in reverse.
-/
import Corkboard.Proofs.Desk.Step
import Corkboard.Proofs.Places

namespace Corkboard

/-! ## Orders -/

section Orders

variable {o s : List Uuid} {p : Nat} {x : Uuid}

theorem perm_insertAt (o : List Uuid) (p : Nat) (x : Uuid) : (insertAt o p x).Perm (x :: o) := by
  have hsplit : x :: o = x :: (o.take p ++ o.drop p) := by rw [List.take_append_drop]
  rw [hsplit]
  exact List.perm_middle

theorem sublist_insertAt (o : List Uuid) (p : Nat) (x : Uuid) : o.Sublist (insertAt o p x) := by
  have hsub : (o.take p ++ o.drop p).Sublist (insertAt o p x) := (List.sublist_cons_self x (o.drop p)).append_left _
  rwa [List.take_append_drop] at hsub

theorem nodup_insertAt : (insertAt o p x).Nodup ↔ x ∉ o ∧ o.Nodup := by
  rw [(perm_insertAt o p x).nodup_iff, List.nodup_cons]

/-- entries among the old ones stand as they stood -/
theorem sublist_insertAt_iff (hs : ∀ y ∈ s, y ∈ o) (hx : x ∉ o) : s.Sublist (insertAt o p x) ↔ s.Sublist o := by
  constructor
  · intro h
    have hsame : ∀ l : List Uuid, (∀ y ∈ l, y ∈ o) → l.filter (· ≠ x) = l := fun l hl =>
      List.filter_eq_self.2 fun y hy => by
        have hne : y ≠ x := by rintro rfl; exact hx (hl y hy)
        simpa using hne
    have hfilter := h.filter (· ≠ x)
    rwa [filter_insertAt, hsame s hs, hsame o fun _ h => h] at hfilter
  · exact fun h => h.trans (sublist_insertAt o p x)

/-- what is listed in a prefix stands there in the order of the whole -/
theorem sublist_take (hn : o.Nodup) (h : s.Sublist o) (hs : ∀ y ∈ s, y ∈ o.take p) : s.Sublist (o.take p) := by
  have hprefix : o.filter (· ∈ o.take p) = o.take p := by
    have hsplit : (o.take p ++ o.drop p).Nodup := by rwa [List.take_append_drop]
    have hdrop : (o.drop p).filter (· ∈ o.take p) = [] :=
      List.filter_eq_nil_iff.2 fun y hy hmem =>
        (List.nodup_append.1 hsplit).2.2 y (by simpa using hmem) y hy rfl
    calc o.filter (· ∈ o.take p)
        = (o.take p ++ o.drop p).filter (· ∈ o.take p) := by rw [List.take_append_drop]
      _ = (o.take p).filter (· ∈ o.take p) ++ (o.drop p).filter (· ∈ o.take p) := List.filter_append _ _
      _ = o.take p := by rw [hdrop, List.append_nil, List.filter_eq_self.2 (by simp)]
  have hsame : s.filter (· ∈ o.take p) = s := List.filter_eq_self.2 (by simpa using hs)
  have hfilter := h.filter (· ∈ o.take p)
  rwa [hsame, hprefix] at hfilter

/-- A new entry comes after some others exactly if these stand in their order, all in front of its place. -/
theorem concat_sublist_insertAt_iff (hn : (insertAt o p x).Nodup) (hs : ∀ y ∈ s, y ∈ o) :
    (s ++ [x]).Sublist (insertAt o p x) ↔ s.Sublist o ∧ ∀ y ∈ s, y ∈ o.take p := by
  obtain ⟨hx, hnodup⟩ := nodup_insertAt.1 hn
  constructor
  · intro h
    refine ⟨(sublist_insertAt_iff hs hx).1 ((List.sublist_append_left s [x]).trans h), fun y hy => ?_⟩
    obtain ⟨front, back, hsplit, hfront, hback⟩ := List.append_sublist_iff.1 h
    have hy : y ∈ front := hfront.subset hy
    have hxback : x ∈ back := hback.subset List.mem_cons_self
    have hxfront : x ∉ front := fun hmem => (List.nodup_append.1 (hsplit ▸ hn)).2.2 x hmem x hxback rfl
    rcases List.append_eq_append_iff.1 hsplit with ⟨rest, rfl, hrest⟩ | ⟨rest, htake, -⟩
    · cases rest with
      | nil => simpa using hy
      | cons z rest =>
        obtain rfl : x = z := (List.cons.inj hrest).1
        exact absurd (List.mem_append_right _ List.mem_cons_self) hxfront
    · rw [htake]
      exact List.mem_append_left _ hy
  · intro h
    obtain ⟨hsub, hfront⟩ := h
    have hlast : [x].Sublist (x :: o.drop p) := by simp
    exact (sublist_take hnodup hsub hfront).append hlast

/-- the new entry is what came in -/
theorem filter_not_mem_insertAt (hx : x ∉ o) : (insertAt o p x).filter (· ∉ o) = [x] := by
  have hold : ∀ l : List Uuid, (∀ y ∈ l, y ∈ o) → l.filter (· ∉ o) = [] := fun l hl =>
    List.filter_eq_nil_iff.2 fun y hy => by simpa using hl y hy
  rw [insertAt, List.filter_append, List.filter_cons, hold _ fun _ => List.mem_of_mem_take,
    hold _ fun _ => List.mem_of_mem_drop, if_pos (by simpa using hx), List.nil_append]

end Orders

/-! ## Histories that grow -/

namespace History

/-- the order of a card, empty if the card is missing -/
def orderOf (h : History) (card : Uuid) : List Uuid := (h.store.card? card).elim [] Card.contentOrder

/-- the order of the card stays as it is, or gets one entry that was not in it -/
def Grows (card : Uuid) (h h' : History) : Prop :=
  h'.orderOf card = h.orderOf card ∨
  ∃ place x, h'.orderOf card = insertAt (h.orderOf card) place x ∧ (h'.orderOf card).Nodup

end History

theorem OrderEdit.Written.card?_insert {b : Block} {index : Nat} {card : Uuid} {order : List Uuid} {h h' : History}
    (hw : (OrderEdit.insert b index).Written card order h h') :
    ∃ c, h.store.card? card = some c ∧ order = insertAt c.contentOrder index b.id ∧
      ∀ id, h'.store.card? id = if id = card then some { c with contentOrder := order } else h.store.card? id := by
  obtain ⟨c, hc, horder, -, hstore⟩ := hw.effect
  have hid : c.id = card := Store.id_of_card? hc
  refine ⟨c, hc, (Option.some.inj horder).symm, fun id => ?_⟩
  rw [hstore, OrderEdit.result, Store.card?_putCard, Store.card?_putBlock, hid]

/-- the order after such an insertion -/
theorem OrderEdit.Written.inserted {b : Block} {index : Nat} {card : Uuid} {order : List Uuid} {h h' : History}
    (hw : (OrderEdit.insert b index).Written card order h h') :
    h'.orderOf card = insertAt (h.orderOf card) index b.id ∧ (h'.orderOf card).Nodup ∧
      ∀ other, other ≠ card → h'.orderOf other = h.orderOf other := by
  obtain ⟨c, hc, rfl, hcards⟩ := hw.card?_insert
  have hafter : h'.orderOf card = insertAt c.contentOrder index b.id := by simp [History.orderOf, hcards]
  have hbefore : h.orderOf card = c.contentOrder := by simp [History.orderOf, hc]
  exact ⟨by rw [hafter, hbefore], hafter ▸ hw.consistent.nodup, fun other hne => by simp [History.orderOf, hcards, hne]⟩

/-- the calls that only add to an order -/
def Call.Adds : Call → Prop
  | add _ _ | save ⟨none, _, _⟩ _ | compose _ _ => True
  | _ => False

def Phase.Inserting : Phase → Prop
  | waiting edit _ | reading edit _ _ | writing edit _ _ _ => ∃ b index, edit = .insert b index
  | seeking _ | fetching _ _ _ | replacing _ _ => False
  | _ => True

namespace Phase

variable {p p' : Phase} {h h' : History} {w : Ambient} {card : Uuid}

theorem inserting_composing (saved : List Block) (index : Nat) (drafts : List Committed) :
    (composing saved index drafts).Inserting := by
  cases drafts <;> trivial

theorem inserting_start (r : ContentRegistry) {c : Call} (hc : c.Adds) : (start r c).Inserting := by
  cases c with
  | add tag index =>
    simp only [start]
    cases r.get? tag <;> trivial
  | save draft index =>
    obtain ⟨_ | id, tag, value⟩ := draft
    · trivial
    · exact hc.elim
  | compose lines index => exact inserting_composing _ _ _
  | updateValue id value => exact hc.elim
  | delete id => exact hc.elim
  | move id index => exact hc.elim

theorem inserting_next (hp : p.Inserting) (hn : Next h w card p p') : p'.Inserting := by
  cases hn with
  | opened _ => trivial
  | made _ => exact ⟨_, _, rfl⟩
  | drafted _ => exact ⟨_, _, rfl⟩
  | sought _ _ => exact hp.elim
  | fetched _ _ => exact hp.elim
  | locked => exact hp
  | held => exact hp
  | read _ _ => exact hp
  | again _ _ _ _ => exact hp
  | @noted b sequel =>
    cases sequel with
    | answer => trivial
    | compose saved drafts index => exact inserting_composing _ _ _
  | ended => trivial
  | failed _ => trivial

/-- one step of such a call leaves every order or lets it grow -/
theorem grows_of_acts (hp : p.Inserting) (ha : Task.Acts w card h p h' p') :
    p'.Inserting ∧ ∀ c, h.Grows c h' := by
  cases ha with
  | quiet hn => exact ⟨inserting_next hp hn, fun _ => .inl rfl⟩
  | replaced _ => exact hp.elim
  | @edited edit sequel attempt read group order h' hg hcommit =>
    obtain ⟨b, index, rfl⟩ := hp
    obtain ⟨hafter, hnodup, hothers⟩ := (OrderEdit.written_of_commit hg hcommit).inserted
    refine ⟨trivial, fun c => ?_⟩
    by_cases hcard : c = read.id
    · rw [hcard]
      exact .inr ⟨index, b.id, hafter, hnodup⟩
    · exact .inl (hothers c hcard)

end Phase

/-! ## A composition -/

/-- the drafts that are left to save, the next one apart, with the blocks saved so far -/
def Sequel.Awaits (drafts : List Committed) (index : Nat) (saved : List Block) (next : String × Json)
    (sequel : Sequel) :
    Prop :=
  ∃ rest, sequel = .compose saved rest index ∧ drafts.map (fun d => (d.tag, d.value)) =
    saved.map (fun b => (b.kind, b.value)) ++ next :: rest.map fun d => (d.tag, d.value)

/-- where a composition stands that has saved these blocks -/
def Phase.Composes (card : Uuid) (drafts : List Committed) (index : Nat) (saved : List Block) : Phase → Prop
  | drafting kind value place sequel => place = index + saved.length ∧ sequel.Awaits drafts index saved (kind, value)
  | waiting edit sequel | reading edit sequel _ =>
    ∃ b, edit = .insert b (index + saved.length) ∧ sequel.Awaits drafts index saved (b.kind, b.value)
  | writing edit sequel _ read => read.id = card ∧
    ∃ b, edit = .insert b (index + saved.length) ∧ sequel.Awaits drafts index saved (b.kind, b.value)
  | noting b sequel => ∃ before, saved = before ++ [b] ∧ sequel.Awaits drafts index before (b.kind, b.value)
  | done (.ok answer) => answer = .blocks saved ∧
    drafts.map (fun d => (d.tag, d.value)) = saved.map fun b => (b.kind, b.value)
  | done (.error _) => True
  | _ => False

namespace Phase

variable {p p' : Phase} {h h' : History} {w : Ambient} {card : Uuid} {drafts : List Committed} {index : Nat}
  {saved : List Block}

theorem composes_composing {rest : List Committed} (hrest : drafts.map (fun d => (d.tag, d.value)) =
    saved.map (fun b => (b.kind, b.value)) ++ rest.map fun d => (d.tag, d.value)) :
    (composing saved index rest).Composes card drafts index saved := by
  cases rest with
  | nil => exact ⟨rfl, by simpa using hrest⟩
  | cons d rest => exact ⟨rfl, rest, rfl, hrest⟩

theorem composes_next (hp : p.Composes card drafts index saved) (hn : Next h w card p p') :
    p'.Composes card drafts index saved := by
  cases hn with
  | opened _ => exact hp.elim
  | made _ => exact hp.elim
  | drafted _ =>
    obtain ⟨rfl, hsequel⟩ := hp
    exact ⟨_, rfl, hsequel⟩
  | sought _ _ => exact hp.elim
  | fetched _ _ => exact hp.elim
  | locked => exact hp
  | held => exact hp
  | read hc _ => exact ⟨Store.id_of_card? hc, hp⟩
  | again _ _ _ _ => exact hp.2
  | noted =>
    obtain ⟨before, rfl, rest, rfl, hrest⟩ := hp
    exact composes_composing (by simpa using hrest)
  | ended => exact hp
  | failed _ => trivial

/-- the write of a block: its place is counted from the index, and it is the next block saved -/
theorem composes_write {edit : OrderEdit} {sequel : Sequel} {attempt : Nat} {read : Card} (order : List Uuid)
    (hp : (writing edit sequel attempt read).Composes card drafts index saved) :
    ∃ b, read.id = card ∧ edit = .insert b (index + saved.length) ∧
      (Task.afterEdit edit sequel order).Composes card drafts index (saved ++ [b]) := by
  obtain ⟨hread, b, rfl, hsequel⟩ := hp
  exact ⟨b, hread, rfl, saved, rfl, hsequel⟩

end Phase

/-! ## What the steps of a call put in -/

/-- the entries that came into the order of a card between two histories -/
def entered (card : Uuid) (t : History × History) : List Uuid := (t.2.orderOf card).filter (· ∉ t.1.orderOf card)

def enteredAll (card : Uuid) (turns : List (History × History)) : List Uuid := turns.flatMap (entered card)

/-- whenever a step put something in, all that earlier steps had put in stood in front of its place: the places are
counted from an index -/
def Ahead (card : Uuid) (index : Nat) (turns : List (History × History)) : Prop :=
  ∀ i t, turns[i]? = some t → entered card t ≠ [] → ∀ id ∈ enteredAll card (turns.take i),
    id ∈ (t.1.orderOf card).take (index + (enteredAll card (turns.take i)).length)

namespace Errand

/-- what the call has put into the order of its card, first things first -/
def entries (e : Errand) : List Uuid := enteredAll e.task.handle.card e.turns

end Errand

section Turns

variable {card : Uuid} {index : Nat} {turns : List (History × History)} {t : History × History} {h : History}

theorem entered_same (card : Uuid) (h : History) : entered card (h, h) = [] :=
  List.filter_eq_nil_iff.2 fun id hid => by simpa using hid

theorem enteredAll_snoc (card : Uuid) (turns : List (History × History)) (t : History × History) :
    enteredAll card (turns ++ [t]) = enteredAll card turns ++ entered card t := by
  simp [enteredAll]

theorem ahead_nil (card : Uuid) (index : Nat) : Ahead card index [] := by simp [Ahead]

theorem ahead_snoc : Ahead card index (turns ++ [t]) ↔ Ahead card index turns ∧ (entered card t ≠ [] →
    ∀ id ∈ enteredAll card turns, id ∈ (t.1.orderOf card).take (index + (enteredAll card turns).length)) := by
  have hold : ∀ i t', turns[i]? = some t' → (turns ++ [t]).take i = turns.take i := fun i t' hi =>
    List.take_append_of_le_length (Nat.le_of_lt (List.getElem?_eq_some_iff.1 hi).1)
  constructor
  · intro h
    refine ⟨fun i t' hi => ?_, ?_⟩
    · have hi' := h i t' (Places.getElem?_concat_eq_some_iff.2 (.inl hi))
      rwa [hold i t' hi] at hi'
    · have hlast := h turns.length t (Places.getElem?_concat_eq_some_iff.2 (.inr ⟨rfl, rfl⟩))
      rwa [List.take_left'  rfl] at hlast
  · intro h i t' hi
    obtain ⟨hturns, hlast⟩ := h
    rcases Places.getElem?_concat_eq_some_iff.1 hi with hi | ⟨rfl, rfl⟩
    · rw [hold i t' hi]
      exact hturns i t' hi
    · rw [List.take_left' rfl]
      exact hlast

theorem ahead_snoc_same : Ahead card index (turns ++ [(h, h)]) ↔ Ahead card index turns := by
  simp [ahead_snoc, entered_same]

end Turns

/-! ## A composition among other calls -/

/-- a composition with the order of its card -/
structure Errand.Composed (drafts : List Committed) (index : Nat) (h : History) (saved : List Block) (e : Errand) :
    Prop where
  phase : e.task.phase.Composes e.task.handle.card drafts index saved
  entries : e.entries = saved.map Block.id
  present : ∀ id ∈ e.entries, id ∈ h.orderOf e.task.handle.card
  ordered : e.entries.Sublist (h.orderOf e.task.handle.card) ↔ Ahead e.task.handle.card index e.turns
  /-- the order was never longer than it is, and never lost what the call had put in -/
  grown : ∀ i t, e.turns[i]? = some t →
    (t.1.orderOf e.task.handle.card).length ≤ (h.orderOf e.task.handle.card).length ∧
    ∀ id ∈ enteredAll e.task.handle.card (e.turns.take i), id ∈ t.1.orderOf e.task.handle.card

namespace Errand.Composed

variable {drafts : List Committed} {index : Nat} {h h' : History} {saved : List Block} {e : Errand} {w : Ambient}

theorem grow (hc : e.Composed drafts index h saved) (hg : h.Grows e.task.handle.card h') :
    e.Composed drafts index h' saved := by
  rcases hg with hsame | ⟨place, x, horder, hnodup⟩
  · exact ⟨hc.phase, hc.entries, hsame ▸ hc.present, hsame ▸ hc.ordered, hsame ▸ hc.grown⟩
  · obtain ⟨hx, -⟩ := nodup_insertAt.1 (horder ▸ hnodup)
    have hsub : ∀ id ∈ h.orderOf e.task.handle.card, id ∈ h'.orderOf e.task.handle.card := fun id hid => by
      rw [horder]
      exact mem_insertAt.2 (.inr hid)
    have hlength : (h.orderOf e.task.handle.card).length ≤ (h'.orderOf e.task.handle.card).length := by
      rw [horder]
      exact (sublist_insertAt _ _ _).length_le
    refine ⟨hc.phase, hc.entries, fun id hid => hsub id (hc.present id hid), ?_, fun i t ht => ?_⟩
    · rw [horder, sublist_insertAt_iff hc.present hx]
      exact hc.ordered
    · exact ⟨Nat.le_trans (hc.grown i t ht).1 hlength, (hc.grown i t ht).2⟩

variable {e' : Errand}

theorem idle (hc : e.Composed drafts index h saved) (hhandle : e'.task.handle = e.task.handle)
    (hturns : e'.turns = e.turns ++ [(h, h)]) (hphase : e'.task.phase.Composes e.task.handle.card drafts index saved) :
    e'.Composed drafts index h saved := by
  have hentries : e'.entries = e.entries := by simp [Errand.entries, hhandle, hturns, enteredAll_snoc, entered_same]
  refine ⟨hhandle ▸ hphase, hentries.trans hc.entries, ?_, ?_, ?_⟩
  · rw [hentries, hhandle]
    exact hc.present
  · rw [hentries, hhandle, hturns, ahead_snoc_same]
    exact hc.ordered
  · rw [hhandle, hturns]
    intro i t hi
    rcases Places.getElem?_concat_eq_some_iff.1 hi with hi | ⟨rfl, rfl⟩
    · rw [List.take_append_of_le_length (Nat.le_of_lt (List.getElem?_eq_some_iff.1 hi).1)]
      exact hc.grown i t hi
    · rw [List.take_left' rfl]
      exact ⟨Nat.le_refl _, hc.present⟩

theorem write (hc : e.Composed drafts index h saved) {b : Block} (hhandle : e'.task.handle = e.task.handle)
    (hturns : e'.turns = e.turns ++ [(h, h')])
    (horder : h'.orderOf e.task.handle.card = insertAt (h.orderOf e.task.handle.card) (index + saved.length) b.id)
    (hnodup : (h'.orderOf e.task.handle.card).Nodup)
    (hphase : e'.task.phase.Composes e.task.handle.card drafts index (saved ++ [b])) :
    e'.Composed drafts index h' (saved ++ [b]) := by
  have hnew : (insertAt (h.orderOf e.task.handle.card) (index + saved.length) b.id).Nodup := horder ▸ hnodup
  obtain ⟨hb, -⟩ := nodup_insertAt.1 hnew
  have hentered : entered e.task.handle.card (h, h') = [b.id] := by
    rw [entered, horder]
    exact filter_not_mem_insertAt hb
  have hentries : e'.entries = e.entries ++ [b.id] := by
    rw [Errand.entries, hhandle, hturns, enteredAll_snoc, hentered]
    rfl
  have hlength : saved.length = e.entries.length := by rw [hc.entries, List.length_map]
  refine ⟨hhandle ▸ hphase, by rw [hentries, hc.entries, List.map_append, List.map_singleton], ?_, ?_, ?_⟩
  · rw [hentries, hhandle, horder]
    intro id hid
    rcases List.mem_append.1 hid with hid | hid
    · exact mem_insertAt.2 (.inr (hc.present id hid))
    · exact mem_insertAt.2 (.inl (List.mem_singleton.1 hid))
  · rw [hentries, hhandle, horder, hturns, concat_sublist_insertAt_iff hnew hc.present, ahead_snoc, hc.ordered,
      hentered, hlength]
    simp [Errand.entries]
  · have hlonger : (h.orderOf e.task.handle.card).length ≤ (h'.orderOf e.task.handle.card).length := by
      rw [horder]
      exact (sublist_insertAt _ _ _).length_le
    rw [hhandle, hturns]
    intro i t hi
    rcases Places.getElem?_concat_eq_some_iff.1 hi with hi | ⟨rfl, rfl⟩
    · rw [List.take_append_of_le_length (Nat.le_of_lt (List.getElem?_eq_some_iff.1 hi).1)]
      exact ⟨Nat.le_trans (hc.grown i t hi).1 hlonger, (hc.grown i t hi).2⟩
    · rw [List.take_left' rfl]
      exact ⟨hlonger, hc.present⟩

end Errand.Composed

/-! ## All calls -/

namespace Floor

variable {r : ContentRegistry} {f : Floor} {i : Nat} {e : Errand} {w : Ambient}

/-- a call that only adds is made, or some call takes a step -/
def Move.Adds : Move → Prop
  | .call _ c => c.Adds
  | .step _ _ => True
  | _ => False

/-- the calls only add, and each composition has a place in the order of its card -/
structure Growing (r : ContentRegistry) (f : Floor) : Prop where
  inserting : ∀ e ∈ f.errands, e.task.phase.Inserting
  composed : ∀ e ∈ f.errands, ∀ lines index, e.call = .compose lines index →
    ∃ saved, e.Composed (Editor.enterLines r .new lines) index f.history saved

theorem growing_new (h : History) : (new h).Growing r := ⟨by simp [new], by simp [new]⟩

theorem growing_call (hf : f.Growing r) (handle : Handle) {c : Call} (hc : c.Adds) :
    (f.take r (.call handle c)).Growing r where
  inserting e he := by
    rcases List.mem_append.1 he with he | he
    · exact hf.inserting e he
    · obtain rfl := List.mem_singleton.1 he
      exact Phase.inserting_start r hc
  composed e he lines index hcall := by
    rcases List.mem_append.1 he with he | he
    · exact hf.composed e he lines index hcall
    · obtain rfl := List.mem_singleton.1 he
      obtain rfl : c = .compose lines index := hcall
      have hphase :
          (Phase.start r (.compose lines index)).Composes handle.card (Editor.enterLines r .new lines) index [] :=
        Phase.composes_composing rfl
      exact ⟨[], hphase, rfl, by simp [Errand.entries, enteredAll],
        by simp [Errand.entries, enteredAll, ahead_nil], by simp⟩

/-- the composition that takes the step -/
theorem composed_stepped {drafts : List Committed} {index : Nat} {saved : List Block} {d : Desk History}
    (hinserting : e.task.phase.Inserting) (hc : e.Composed drafts index d.doc saved) :
    ∃ saved', (e.stepped w d).Composed drafts index (e.task.step .plain w d).1.doc saved' := by
  obtain ⟨hhandle, hacts⟩ := e.stepped_acts w d
  have hturns : (e.stepped w d).turns = e.turns ++ [(d.doc, (e.task.step .plain w d).1.doc)] := rfl
  have hphase := hc.phase
  generalize hp' : (e.stepped w d).task.phase = p' at hacts
  generalize (e.task.step .plain w d).1.doc = h' at hacts hturns ⊢
  generalize hp : e.task.phase = p at hacts hphase hinserting
  cases hacts with
  | quiet hn => exact ⟨saved, hc.idle hhandle hturns (hp' ▸ Phase.composes_next hphase hn)⟩
  | replaced _ => exact hinserting.elim
  | @edited edit sequel attempt read group order h' hg hcommit =>
    obtain ⟨b, hread, rfl, hnext⟩ := Phase.composes_write order hphase
    obtain ⟨hafter, hnodup, -⟩ := (OrderEdit.written_of_commit hg hcommit).inserted
    rw [hread] at hafter hnodup
    exact ⟨saved ++ [b], hc.write hhandle hturns hafter hnodup (hp' ▸ hnext)⟩

theorem growing_step (hf : f.Growing r) (hi : f.errands[i]? = some e) : (f.take r (.step i w)).Growing r := by
  have he : e ∈ f.errands := List.mem_of_getElem? hi
  obtain ⟨hinserting, hgrows⟩ := Phase.grows_of_acts (hf.inserting e he) (e.stepped_acts w f.desk).2
  rw [take_step r hi]
  refine ⟨fun e' he' => ?_, fun e' he' lines index hcall => ?_⟩
  · rcases List.mem_or_eq_of_mem_set he' with he' | rfl
    · exact hf.inserting e' he'
    · exact hinserting
  · rcases List.mem_or_eq_of_mem_set he' with he' | rfl
    · obtain ⟨saved, hc⟩ := hf.composed e' he' lines index hcall
      exact ⟨saved, hc.grow (hgrows _)⟩
    · obtain ⟨saved, hc⟩ := hf.composed e he lines index hcall
      exact composed_stepped (hf.inserting e he) hc

theorem growing_run (hf : f.Growing r) {ms : List Move} (hms : ∀ m ∈ ms, m.Adds) : (f.run r ms).Growing r := by
  induction ms generalizing f with
  | nil => exact hf
  | cons m ms ih =>
    refine ih ?_ fun m' hm' => hms m' (List.mem_cons_of_mem _ hm')
    have hm : m.Adds := hms m List.mem_cons_self
    cases m with
    | call handle c => exact growing_call hf handle hm
    | step i w =>
      cases hi : f.errands[i]? with
      | none => simpa only [take, hi] using hf
      | some e => exact growing_step hf hi
    | undo now => exact hm.elim
    | redo now => exact hm.elim
    | insertCard c => exact hm.elim
    | perform now group => exact hm.elim

/-- **Lines in order.** However the steps of compositions and additions are mixed, what a composition has put into the
order of its card stands there in the order of its lines exactly if each block, when it was saved, found all earlier
ones in front of its place. An index at or beyond the end of the order is enough for that. A composition that succeeded
has put in one block for each draft of its lines, and answers with them. -/
theorem compose_in_order_iff (r : ContentRegistry) (h : History) (ms : List Move) (hms : ∀ m ∈ ms, m.Adds) (e : Errand)
    (he : e ∈ ((new h).run r ms).errands) (lines : List String) (index : Nat) (hcall : e.call = .compose lines index) :
    let order := ((new h).run r ms).history.orderOf e.task.handle.card
    (e.entries.Sublist order ↔ Ahead e.task.handle.card index e.turns) ∧
    (order.length ≤ index → e.entries.Sublist order) ∧
    ∀ answer, e.task.phase = .done (.ok answer) → ∃ bs, answer = .blocks bs ∧ bs.map Block.id = e.entries ∧
      bs.map (fun b => (b.kind, b.value)) = (Editor.enterLines r .new lines).map fun d => (d.tag, d.value) := by
  obtain ⟨saved, hc⟩ := (growing_run (growing_new h) hms).composed e he lines index hcall
  refine ⟨hc.ordered, fun hlength => hc.ordered.2 fun i t hi _ id hid => ?_, fun answer hdone => ?_⟩
  · obtain ⟨hshorter, hpresent⟩ := hc.grown i t hi
    have hwhole : (t.1.orderOf e.task.handle.card).length ≤
        index + (enteredAll e.task.handle.card (e.turns.take i)).length :=
      Nat.le_trans (Nat.le_trans hshorter hlength) (Nat.le_add_right _ _)
    rw [List.take_of_length_le hwhole]
    exact hpresent id hid
  · have hphase := hc.phase
    rw [hdone] at hphase
    obtain ⟨hanswer, hdrafts⟩ := hphase
    exact ⟨saved, hanswer, hc.entries.symm, hdrafts.symm⟩

/-! ### Two lines and an addition -/

/-- two lines at the head of a card without body, and a block added at an index after the first line was saved -/
def quickEntry (index : Nat) : List Move :=
  .call ⟨⟨1⟩, 0⟩ (.compose ["one", "two"] 0) :: .call ⟨⟨1⟩, 0⟩ (.add "text" index) ::
    (List.replicate 5 (.step 0 ⟨5, ⟨20⟩, .nil⟩) ++ List.replicate 6 (.step 1 ⟨6, ⟨30⟩, .nil⟩) ++
      List.replicate 5 (.step 0 ⟨7, ⟨40⟩, .nil⟩))

def quickEntered (index : Nat) : Floor :=
  (new History.OneBlock.start).run (.builtin .firstRegistered) (quickEntry index)

theorem quickEntry_adds (index : Nat) : ∀ m ∈ quickEntry index, m.Adds := by
  have hsteps : ∀ (n place : Nat) (w : Ambient), ∀ m ∈ List.replicate n (Move.step place w), m.Adds := by
    intro n place w m hm
    rw [List.eq_of_mem_replicate hm]
    trivial
  refine List.forall_mem_cons.2 ⟨trivial, List.forall_mem_cons.2 ⟨trivial, fun m hm => ?_⟩⟩
  rcases List.mem_append.1 hm with hm | hm
  · rcases List.mem_append.1 hm with hm | hm
    · exact hsteps _ _ _ m hm
    · exact hsteps _ _ _ m hm
  · exact hsteps _ _ _ m hm

theorem addition_behind_lines : (quickEntered 9).history.orderOf ⟨1⟩ = [⟨20⟩, ⟨40⟩, ⟨30⟩] ∧
    ∃ e ∈ (quickEntered 9).errands, e.entries = [⟨20⟩, ⟨40⟩] ∧ Ahead ⟨1⟩ 0 e.turns := by
  have he : (quickEntered 9).errands[0]? = some _ := rfl
  have horder := (compose_in_order_iff (.builtin .firstRegistered) History.OneBlock.start (quickEntry 9)
    (quickEntry_adds 9) _ (List.mem_of_getElem? he) ["one", "two"] 0 rfl).1
  exact ⟨rfl, _, List.mem_of_getElem? he, rfl,
    horder.1 (show [⟨20⟩, ⟨40⟩].Sublist [⟨20⟩, ⟨40⟩, (⟨30⟩ : Uuid)] by decide)⟩

/-- **Lines in reverse.** A block added at the head between the two lines pushes the first one behind the place that is
counted for the second: all calls succeed, and the second line stands before the first. -/
theorem addition_reverses_lines : (quickEntered 0).errands.map Errand.succeeded = [true, true] ∧
    (quickEntered 0).history.orderOf ⟨1⟩ = [⟨30⟩, ⟨40⟩, ⟨20⟩] ∧
    ∃ e ∈ (quickEntered 0).errands, ∃ bs, e.call = .compose ["one", "two"] 0 ∧ e.task.phase = .done (.ok (.blocks bs)) ∧
      bs.map (fun b => (b.id, b.value)) = [(⟨20⟩, .string "one"), (⟨40⟩, .string "two")] ∧
      ¬ (bs.map Block.id).Sublist ((quickEntered 0).history.orderOf ⟨1⟩) := by
  have he : (quickEntered 0).errands[0]? = some _ := rfl
  have hreversed : ¬ [⟨20⟩, ⟨40⟩].Sublist [⟨30⟩, ⟨40⟩, (⟨20⟩ : Uuid)] := by decide
  exact ⟨rfl, rfl, _, List.mem_of_getElem? he, _, rfl, rfl, rfl, hreversed⟩

end Floor

end Corkboard
