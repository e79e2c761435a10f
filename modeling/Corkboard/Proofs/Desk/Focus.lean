/-
Which new block is remembered.

A call that adds a block commits it while it holds the order lock, and remembers it in a step of its own after the lock
was left. In between, another call may commit a block and remember it. Is the block that is remembered in the end the
one that was committed last?

- `newest_iff_noted_last`: once all calls through a handle have ended, each block they have put in was remembered once,
  and the one remembered is the one that was noted last. It is the one that was put in last exactly if that one also was
  noted last.
- `earlier_block_remembered`: two additions of which the first is overtaken between its two steps. The second block was
  put in last, the first one is remembered.

The invariant is `Remembers`: what a call has put in and what it has noted differ at most by the block it is about to
note.
-/
import Corkboard.Proofs.Desk.Compositions
import Mathlib.Data.List.Basic
import Mathlib.Data.List.Induction

namespace Corkboard

/-! ## What a step is to a new block -/

/-- what befalls a new block: it is put in, or noted as the newest -/
inductive Landing where
  | putIn (block : Uuid)
  | noted (block : Uuid)
  deriving DecidableEq

namespace Landing

def putIn? : Landing → Option Uuid
  | putIn b => some b
  | noted _ => none

def noted? : Landing → Option Uuid
  | putIn _ => none
  | noted b => some b

end Landing

/-- the new block that an edit of an order puts in -/
def OrderEdit.inserted? : OrderEdit → Option Uuid
  | insert b _ => some b.id
  | _ => none

namespace Phase

/-- the block that was put in and is not noted yet -/
def unnoted? : Phase → Option Uuid
  | noting b _ => some b.id
  | _ => none

/-- the new block that a call has on its way -/
def fresh? : Phase → Option Uuid
  | waiting edit _ | reading edit _ _ | writing edit _ _ _ => edit.inserted?
  | noting b _ => some b.id
  | _ => none

/-- what a step from one phase to another is to a new block -/
def landing? : Phase → Phase → Option Landing
  | noting b _, _ => some (.noted b.id)
  | writing _ _ _ _, noting b _ => some (.putIn b.id)
  | _, _ => none

variable {p p' : Phase} {h h' : History} {w : Ambient} {card : Uuid} {id : Uuid}

theorem fresh?_start (r : ContentRegistry) (c : Call) : (start r c).fresh? = none := by
  cases c with
  | add tag index =>
    simp only [start]
    cases r.get? tag <;> rfl
  | save draft index =>
    obtain ⟨_ | id, tag, value⟩ := draft <;> rfl
  | compose lines index =>
    simp only [start]
    cases Editor.enterLines r .new lines <;> rfl
  | updateValue id value => rfl
  | delete id => rfl
  | move id index => rfl

theorem fresh?_of_unnoted? (hp : p.unnoted? = some id) : p.fresh? = some id := by
  cases p with
  | noting b sequel => exact hp
  | _ => cases hp

theorem unnoted?_of_result? (hp : p.result?.isSome) : p.unnoted? = none := by
  cases p with
  | noting b sequel => cases hp
  | _ => rfl

theorem fresh?_afterBlock (b : Block) (sequel : Sequel) : (afterBlock b sequel).fresh? = none := by
  cases sequel with
  | answer => rfl
  | compose saved drafts index => cases drafts <;> rfl

/-- a call notes what it was about to note -/
theorem noted_landing? (p p' : Phase) : (landing? p p').bind Landing.noted? = p.unnoted? := by
  cases p with
  | writing edit sequel attempt read => cases p' <;> rfl
  | _ => rfl

/-- what a step puts in is to be noted next -/
theorem putIn_landing? (ha : Task.Acts w card h p h' p') : (landing? p p').bind Landing.putIn? = p'.unnoted? := by
  cases ha with
  | quiet hn =>
    cases hn with
    | @noted b sequel =>
      have hnone : (afterBlock b sequel).unnoted? = none := by
        cases hnext : (afterBlock b sequel).unnoted? with
        | none => rfl
        | some id => rw [← fresh?_afterBlock b sequel, fresh?_of_unnoted? hnext]
      exact hnone.symm
    | failed hf =>
      cases p with
      | noting b sequel => exact hf.elim
      | _ => rfl
    | _ => rfl
  | replaced _ => rfl
  | @edited edit => cases edit <;> rfl

/-- the block that a call has on its way was there before the step, or has the identifier that the step has drawn -/
theorem fresh?_of_acts (ha : Task.Acts w card h p h' p') (hid : p'.fresh? = some id) :
    p.fresh? = some id ∨ w.id = id := by
  cases ha with
  | quiet hn =>
    cases hn with
    | made _ => exact .inr (Option.some.inj hid)
    | drafted _ => exact .inr (Option.some.inj hid)
    | locked => exact .inl hid
    | held => exact .inl hid
    | read _ _ => exact .inl hid
    | again _ _ _ _ => exact .inl hid
    | noted =>
      rw [fresh?_afterBlock] at hid
      cases hid
    | opened _ => cases hid
    | sought _ _ => cases hid
    | fetched _ _ => cases hid
    | ended => cases hid
    | failed _ => cases hid
  | replaced _ => cases hid
  | @edited edit =>
    cases edit with
    | insert b index => exact .inl hid
    | remove b => cases hid
    | move id index => cases hid

theorem fresh?_of_putIn (ha : Task.Acts w card h p h' p') (hl : landing? p p' = some (.putIn id)) :
    p.fresh? = some id := by
  have hnext : p'.fresh? = some id := by
    have hput := putIn_landing? ha
    rw [hl] at hput
    exact fresh?_of_unnoted? hput.symm
  cases ha with
  | quiet hn =>
    cases hn with
    | failed _ => cases p <;> cases hl
    | _ => cases hl
  | replaced _ => cases hl
  | @edited edit =>
    cases edit with
    | insert b index => exact hnext
    | remove b => cases hl
    | move id index => cases hl

end Phase

/-- a step sets the newest block of its own handle only, to the one that was to be noted -/
theorem Task.newest_step (w : Ambient) (d : Desk History) (t : Task) (handle : Handle) :
    (t.step .plain w d).1.newest handle =
      if handle = t.handle then t.phase.unnoted?.or (d.newest handle) else d.newest handle := by
  cases hp : t.phase with
  | noting b sequel =>
    simp only [step, hp, Desk.setNewest, Phase.unnoted?, Option.some_or]
  | replacing new old =>
    simp only [step, hp, Phase.unnoted?, Option.none_or, ite_self]
    split <;> rfl
  | waiting edit sequel =>
    simp only [step, hp, Phase.unnoted?, Option.none_or, ite_self]
    split <;> rfl
  | reading edit sequel attempt =>
    simp only [step, hp, Phase.unnoted?, Option.none_or, ite_self]
    split
    · split <;> rfl
    · rfl
  | writing edit sequel attempt card =>
    simp only [step, hp, Phase.unnoted?, Option.none_or, ite_self]
    split
    · rfl
    · split
      · rfl
      · split <;> rfl
  | _ => simp only [step, hp, Phase.unnoted?, Option.none_or, ite_self]

/-! ## What a run is to new blocks -/

/-- the blocks put in, in order, each with the place of its call -/
def putIns (log : List (Nat × Landing)) : List (Nat × Uuid) := log.filterMap fun l => l.2.putIn?.map (l.1, ·)

/-- the blocks noted, in order, each with the place of its call -/
def noteds (log : List (Nat × Landing)) : List (Nat × Uuid) := log.filterMap fun l => l.2.noted?.map (l.1, ·)

section Logs

variable (log : List (Nat × Landing)) (place : Nat) (l : Option Landing)

theorem putIns_append :
    putIns (log ++ (l.map (place, ·)).toList) = putIns log ++ ((l.bind Landing.putIn?).map (place, ·)).toList := by
  rw [putIns, List.filterMap_append, ← putIns]
  rcases l with _ | (b | b) <;> rfl

theorem noteds_append :
    noteds (log ++ (l.map (place, ·)).toList) = noteds log ++ ((l.bind Landing.noted?).map (place, ·)).toList := by
  rw [noteds, List.filterMap_append, ← noteds]
  rcases l with _ | (b | b) <;> rfl

theorem filter_own (o : Option Uuid) :
    ((o.map (place, ·)).toList).filter (·.1 = place) = (o.map (place, ·)).toList := by
  cases o <;> simp

theorem filter_other {place place' : Nat} (hne : place' ≠ place) (o : Option Uuid) :
    ((o.map (place, ·)).toList).filter (·.1 = place') = [] := by
  cases o <;> simp [hne.symm]

end Logs

namespace Floor

/-- what a move is to a new block of the handle, with the place of its call -/
def landing? (f : Floor) (handle : Handle) : Move → Option (Nat × Landing)
  | .step place w => f.errands[place]?.bind fun e =>
    if e.task.handle = handle then (e.task.phase.landing? (e.stepped w f.desk).task.phase).map (place, ·) else none
  | _ => none

def landings (r : ContentRegistry) (handle : Handle) (f : Floor) : List Move → List (Nat × Landing)
  | [] => []
  | m :: ms => (f.landing? handle m).toList ++ (f.take r m).landings r handle ms

/-- the identifier that the world supplies to a move -/
def Move.id? : Move → Option Uuid
  | step _ w => some w.id
  | _ => none

/-- no identifier is supplied twice -/
def Fresh (ms : List Move) : Prop := (ms.filterMap Move.id?).Nodup

instance (ms : List Move) : Decidable (Fresh ms) := inferInstanceAs (Decidable (List.Nodup _))

/-- the identifier was supplied to a step of the call at the place -/
def Draws (ms : List Move) (place : Nat) (id : Uuid) : Prop := ∃ w, .step place w ∈ ms ∧ w.id = id

variable {r : ContentRegistry} {handle : Handle} {f : Floor} {ms ms' : List Move} {m : Move} {place place' : Nat}
    {id : Uuid}
  {log : List (Nat × Landing)} {e : Errand} {w : Ambient}

theorem landings_snoc (f : Floor) (ms : List Move) (m : Move) :
    f.landings r handle (ms ++ [m]) = f.landings r handle ms ++ ((f.run r ms).landing? handle m).toList := by
  induction ms generalizing f with
  | nil => exact List.append_nil _
  | cons m' ms ih =>
    simp only [List.cons_append, landings, ih, List.append_assoc]
    rfl

theorem Draws.mono (hd : Draws ms place id) (m : Move) : Draws (ms ++ [m]) place id := by
  obtain ⟨w, hw, hid⟩ := hd
  exact ⟨w, List.mem_append_left _ hw, hid⟩

/-- an identifier is supplied to the steps of one call only -/
theorem Fresh.unique (hf : Fresh ms) (hd : Draws ms place id) (hd' : Draws ms place' id) : place = place' := by
  obtain ⟨w, hw, hid⟩ := hd
  obtain ⟨w', hw', hid'⟩ := hd'
  induction ms with
  | nil => cases hw
  | cons m ms ih =>
    have hnew : ∀ {q : Nat} {x : Ambient}, m = .step q x → x.id = id → ∀ q' x', .step q' x' ∈ ms → x'.id ≠ id := by
      rintro q x rfl hx q' x' hmem hx'
      have hnodup : id ∉ ms.filterMap Move.id? := hx ▸ (List.nodup_cons.1 hf).1
      exact hnodup (List.mem_filterMap.2 ⟨_, hmem, congrArg some hx'⟩)
    rcases List.mem_cons.1 hw with hfirst | hlater
    · rcases List.mem_cons.1 hw' with hfirst' | hlater'
      · cases hfirst.trans hfirst'.symm
        rfl
      · exact absurd hid' (hnew hfirst.symm hid place' w' hlater')
    · rcases List.mem_cons.1 hw' with hfirst' | hlater'
      · exact absurd hid (hnew hfirst'.symm hid' place w hlater)
      · exact ih (hf.sublist ((List.sublist_cons_self m ms).filterMap _)) hlater hlater'

/-- the block that the call at a place was about to note through the handle -/
def unnoted (f : Floor) (handle : Handle) (place : Nat) : List (Nat × Uuid) :=
  (f.errands[place]?.bind fun e => if e.task.handle = handle then e.task.phase.unnoted?.map (place, ·) else none).toList

/-- the calls through a handle after some moves, with what these were to new blocks -/
structure Remembers (handle : Handle) (ms : List Move) (log : List (Nat × Landing)) (f : Floor) : Prop where
  newest : f.desk.newest handle = (noteds log).getLast?.map (·.2)
  paired : ∀ place, (putIns log).filter (·.1 = place) = (noteds log).filter (·.1 = place) ++ f.unnoted handle place
  carried : ∀ place e id, f.errands[place]? = some e → e.task.phase.fresh? = some id → Draws ms place id
  drawn : ∀ place id, (place, id) ∈ putIns log → Draws ms place id

theorem remembers_new (handle : Handle) (h : History) : Remembers handle [] [] (new h) where
  newest := rfl
  paired _ := rfl
  carried _ _ _ he := by simp [new] at he
  drawn _ _ hmem := by simp [putIns] at hmem

theorem Remembers.call (hr : Remembers handle ms log f) (handle' : Handle) (c : Call) :
    Remembers handle (ms ++ [.call handle' c]) log (f.take r (.call handle' c)) where
  newest := hr.newest
  paired place := by
    rw [hr.paired place]
    congr 1
    simp only [unnoted, take, List.getElem?_append]
    split
    · rfl
    · rename_i hge
      rw [List.getElem?_eq_none (Nat.le_of_not_lt hge), List.getElem?_singleton]
      split
      · have hstart : (Phase.start r c).unnoted? = none := by
          cases hs : (Phase.start r c).unnoted? with
          | none => rfl
          | some id => rw [← Phase.fresh?_start r c, Phase.fresh?_of_unnoted? hs]
        simp [hstart]
      · rfl
  carried place e id he hid := by
    rcases Places.getElem?_concat_eq_some_iff.1 he with he | ⟨-, rfl⟩
    · exact (hr.carried place e id he hid).mono _
    · rw [Phase.fresh?_start] at hid
      cases hid
  drawn place id hmem := (hr.drawn place id hmem).mono _

theorem Remembers.setHistory (hr : Remembers handle ms log f) (m : Move) (h : History) :
    Remembers handle (ms ++ [m]) log (f.setHistory h) where
  newest := hr.newest
  paired := hr.paired
  carried place e id he hid := (hr.carried place e id he hid).mono _
  drawn place id hmem := (hr.drawn place id hmem).mono _

/-- whatever its handle is, a call carries on what it has drawn -/
theorem Remembers.carried_step (hr : Remembers handle ms log f) (he : f.errands[place]? = some e) (w : Ambient) :
    ∀ q e' id, (f.errands.set place (e.stepped w f.desk))[q]? = some e' → e'.task.phase.fresh? = some id →
      Draws (ms ++ [.step place w]) q id := by
  obtain ⟨-, hacts⟩ := e.stepped_acts w f.desk
  have hlt : place < f.errands.length := (List.getElem?_eq_some_iff.1 he).1
  intro q e' id he' hid
  rcases (Places.getElem?_set_eq_some_iff hlt).1 he' with ⟨rfl, rfl⟩ | ⟨-, he'⟩
  · rcases Phase.fresh?_of_acts hacts hid with hbefore | rfl
    · exact (hr.carried q e id he hbefore).mono _
    · exact ⟨w, by simp, rfl⟩
  · exact (hr.carried q e' id he' hid).mono _

/-- a step of a call through the handle: what it puts in it is about to note, and what it was about to note it notes -/
theorem Remembers.step_own (hr : Remembers handle ms log f) (he : f.errands[place]? = some e)
    (hsame : e.task.handle = handle) (w : Ambient) :
    Remembers handle (ms ++ [.step place w])
      (log ++ ((e.task.phase.landing? (e.stepped w f.desk).task.phase).map (place, ·)).toList)
      (f.take r (.step place w)) := by
  obtain ⟨hhandle, hacts⟩ := e.stepped_acts w f.desk
  have hlt : place < f.errands.length := (List.getElem?_eq_some_iff.1 he).1
  rw [take_step r he]
  refine ⟨?_, fun q => ?_, hr.carried_step he w, fun q id hmem => ?_⟩
  · rw [Task.newest_step, if_pos hsame.symm, hr.newest, noteds_append, Phase.noted_landing?]
    cases e.task.phase.unnoted? <;> simp
  · rw [putIns_append, noteds_append, Phase.noted_landing?, Phase.putIn_landing? hacts, List.filter_append,
      List.filter_append, hr.paired q]
    by_cases hq : q = place
    · subst hq
      simp only [filter_own, unnoted, he, List.getElem?_set_self hlt, Option.bind_some, if_pos hsame,
        if_pos (hhandle.trans hsame)]
    · simp only [filter_other hq, List.append_nil, unnoted, List.getElem?_set_ne (Ne.symm hq)]
  · rw [putIns_append] at hmem
    rcases List.mem_append.1 hmem with hmem | hmem
    · exact (hr.drawn q id hmem).mono _
    · obtain ⟨x, hx, hpair⟩ := Option.map_eq_some_iff.1 (Option.mem_toList.1 hmem)
      obtain ⟨rfl, rfl⟩ := Prod.mk.inj hpair
      obtain ⟨l, hl, hput⟩ := Option.bind_eq_some_iff.1 hx
      cases l with
      | putIn b =>
        cases hput
        exact (hr.carried place e _ he (Phase.fresh?_of_putIn hacts hl)).mono _
      | noted b => cases hput

theorem Remembers.step_other (hr : Remembers handle ms log f) (he : f.errands[place]? = some e)
    (hne : e.task.handle ≠ handle) (w : Ambient) :
    Remembers handle (ms ++ [.step place w]) log (f.take r (.step place w)) := by
  obtain ⟨hhandle, -⟩ := e.stepped_acts w f.desk
  have hlt : place < f.errands.length := (List.getElem?_eq_some_iff.1 he).1
  rw [take_step r he]
  refine ⟨?_, fun q => ?_, hr.carried_step he w, fun q id hmem => (hr.drawn q id hmem).mono _⟩
  · rw [Task.newest_step, if_neg (Ne.symm hne), hr.newest]
  · rw [hr.paired q]
    congr 1
    by_cases hq : q = place
    · subst hq
      simp only [unnoted, he, List.getElem?_set_self hlt, Option.bind_some, hhandle, if_neg hne]
    · simp only [unnoted, List.getElem?_set_ne (Ne.symm hq)]

theorem Remembers.take (hr : Remembers handle ms log f) (m : Move) :
    Remembers handle (ms ++ [m]) (log ++ (f.landing? handle m).toList) (f.take r m) := by
  have hidle : ∀ m f', f.landing? handle m = none → Remembers handle (ms ++ [m]) log f' →
      Remembers handle (ms ++ [m]) (log ++ (f.landing? handle m).toList) f' := fun m f' hm hr' => by
    rwa [hm, Option.toList_none, List.append_nil]
  have hsteps : ∀ m (o : Except HistoryError (History × String)), Remembers handle (ms ++ [m]) log (f.ofStep o) := by
    rintro m (_ | r)
    · exact hr.setHistory m f.history
    · exact hr.setHistory m _
  cases m with
  | call handle' c => exact hidle _ _ rfl (hr.call handle' c)
  | step place w =>
    cases he : f.errands[place]? with
    | some e =>
      simp only [landing?, he, Option.bind_some]
      split
      · exact hr.step_own he ‹_› w
      · rw [Option.toList_none, List.append_nil]
        exact hr.step_other he ‹_› w
    | none =>
      have hnone : f.landing? handle (.step place w) = none := by simp only [landing?, he, Option.bind_none]
      have hsame : f.take r (.step place w) = f.setHistory f.history := by simp only [Floor.take, he]; rfl
      rw [hsame]
      exact hidle _ _ hnone (hr.setHistory _ _)
  | undo now => exact hidle _ _ rfl (hsteps _ _)
  | redo now => exact hidle _ _ rfl (hsteps _ _)
  | insertCard c => exact hidle _ _ rfl (hr.setHistory _ _)
  | perform now group => exact hidle _ _ rfl (hr.setHistory _ _)

theorem remembers_run (r : ContentRegistry) (handle : Handle) (h : History) (ms : List Move) :
    Remembers handle ms ((new h).landings r handle ms) ((new h).run r ms) := by
  induction ms using List.reverseRecOn with
  | nil => exact remembers_new handle h
  | append_singleton ms m ih =>
    have hlast : (new h).run r (ms ++ [m]) = ((new h).run r ms).take r m := List.foldl_concat ..
    rw [landings_snoc, hlast]
    exact ih.take m

/-- a handle whose calls have all ended has nothing left to note -/
theorem unnoted_of_done (hdone : ∀ e ∈ f.errands, e.task.handle = handle → e.task.phase.result?.isSome) (place : Nat) :
    f.unnoted handle place = [] := by
  simp only [unnoted]
  cases he : f.errands[place]? with
  | none => rfl
  | some e =>
    rw [Option.bind_some]
    split
    · rename_i hsame
      rw [Phase.unnoted?_of_result? (hdone e (List.mem_of_getElem? he) hsame)]
      rfl
    · rfl

/-- what was noted was put in, by the same call -/
theorem Remembers.mem_putIns (hr : Remembers handle ms log f) {x : Nat × Uuid} (hx : x ∈ noteds log) :
    x ∈ putIns log := by
  have hmem : x ∈ (putIns log).filter (·.1 = x.1) := by
    rw [hr.paired x.1]
    exact List.mem_append_left _ (List.mem_filter.2 ⟨hx, by simp⟩)
  exact (List.mem_filter.1 hmem).1

/-- a block is put in by one call only, the one that has drawn its identifier -/
theorem Remembers.eq_of_mem (hr : Remembers handle ms log f) (hf : Fresh ms) {x y : Nat × Uuid} (hx : x ∈ putIns log)
    (hy : y ∈ putIns log) (hid : x.2 = y.2) : x = y :=
  Prod.ext (hf.unique (hr.drawn x.1 x.2 hx) (hid ▸ hr.drawn y.1 y.2 hy)) hid

/-- **The block that is remembered.** Once all calls through a handle have ended, each of them has noted what it has put
in, in that order, and the block remembered is the one noted last of all. It is the block put in last of all exactly if
the call that put that one in was also the last to note its block. -/
theorem newest_iff_noted_last (r : ContentRegistry) (handle : Handle) (h : History) (ms : List Move) (hf : Fresh ms)
    (hdone : ∀ e ∈ ((new h).run r ms).errands, e.task.handle = handle → e.task.phase.result?.isSome) :
    let log := (new h).landings r handle ms
    let newest := ((new h).run r ms).desk.newest handle
    (∀ place, (putIns log).filter (·.1 = place) = (noteds log).filter (·.1 = place)) ∧
    newest = (noteds log).getLast?.map (·.2) ∧
    (newest = (putIns log).getLast?.map (·.2) ↔ (noteds log).getLast? = (putIns log).getLast?) := by
  have hr := remembers_run r handle h ms
  refine ⟨fun place => ?_, hr.newest, ?_⟩
  · rw [hr.paired place, unnoted_of_done hdone place, List.append_nil]
  rw [hr.newest]
  constructor
  · intro hlast
    cases hnoted : (noteds ((new h).landings r handle ms)).getLast? with
    | none =>
      rw [hnoted, Option.map_none, eq_comm, Option.map_eq_none_iff] at hlast
      exact hlast.symm
    | some x =>
      obtain ⟨y, hput, hsame⟩ := Option.map_eq_some_iff.1 (hlast.symm.trans (congrArg (Option.map (·.2)) hnoted))
      have hx := hr.mem_putIns (List.mem_of_getLast? hnoted)
      rw [hput, hr.eq_of_mem hf (List.mem_of_getLast? hput) hx hsame]
  · intro hsame
    rw [hsame]

/-! ### Two additions, in turn or overlapping -/

/-- two additions at the end of one card through one handle, whose calls take their steps in the given order -/
def twoAdditions (places : List Nat) : List Move :=
  [.call ⟨⟨1⟩, 0⟩ (.add "text" 9), .call ⟨⟨1⟩, 0⟩ (.add "text" 9)] ++
    places.mapIdx fun k place => .step place ⟨k, ⟨.ofNat 128 (k + 20)⟩, .nil⟩

theorem later_block_remembered : Fresh (twoAdditions [0, 0, 0, 0, 0, 0, 1, 1, 1, 1, 1, 1]) ∧
    noteds ((new History.OneBlock.start).landings (.builtin .firstRegistered) ⟨⟨1⟩, 0⟩
      (twoAdditions [0, 0, 0, 0, 0, 0, 1, 1, 1, 1, 1, 1])) = [(0, ⟨21⟩), (1, ⟨27⟩)] ∧
    ((new History.OneBlock.start).run (.builtin .firstRegistered)
      (twoAdditions [0, 0, 0, 0, 0, 0, 1, 1, 1, 1, 1, 1])).desk.newest ⟨⟨1⟩, 0⟩ = some ⟨27⟩ := by
  have hf : Fresh (twoAdditions [0, 0, 0, 0, 0, 0, 1, 1, 1, 1, 1, 1]) := by decide
  have hdone : ∀ e ∈ ((new History.OneBlock.start).run (.builtin .firstRegistered)
      (twoAdditions [0, 0, 0, 0, 0, 0, 1, 1, 1, 1, 1, 1])).errands, e.task.handle = ⟨⟨1⟩, 0⟩ →
        e.task.phase.result?.isSome := by
    intro e he _
    have hboth : ((new History.OneBlock.start).run (.builtin .firstRegistered)
      (twoAdditions [0, 0, 0, 0, 0, 0, 1, 1, 1, 1, 1, 1])).errands.all (·.task.phase.result?.isSome) = true := rfl
    exact List.all_eq_true.1 hboth e he
  obtain ⟨-, -, hlast⟩ := newest_iff_noted_last (.builtin .firstRegistered) ⟨⟨1⟩, 0⟩ History.OneBlock.start _ hf hdone
  exact ⟨hf, rfl, hlast.2 rfl⟩

/-- **Overtaken between its two steps.** The first addition commits its block, the second commits and notes its own, and
then the first notes: both succeed, the block of the second was put in last, and the block of the first is
remembered. -/
theorem earlier_block_remembered :
    let f :=
      (new History.OneBlock.start).run (.builtin .firstRegistered) (twoAdditions [0, 0, 0, 0, 0, 1, 1, 1, 1, 1, 1, 0])
    f.errands.map Errand.succeeded = [true, true] ∧ f.history.orderOf ⟨1⟩ = [⟨21⟩, ⟨26⟩] ∧
    (new History.OneBlock.start).landings (.builtin .firstRegistered) ⟨⟨1⟩, 0⟩
      (twoAdditions [0, 0, 0, 0, 0, 1, 1, 1, 1, 1, 1, 0]) =
      [(0, .putIn ⟨21⟩), (1, .putIn ⟨26⟩), (1, .noted ⟨26⟩), (0, .noted ⟨21⟩)] ∧
    f.desk.newest ⟨⟨1⟩, 0⟩ = some ⟨21⟩ ∧ (f.desk.claim ⟨⟨1⟩, 0⟩ ⟨26⟩).2 = false :=
  ⟨rfl, rfl, rfl, rfl, rfl⟩

end Floor

end Corkboard
