/-
Who holds the lock of a card.

- `Openings.one_handle`: all who open a card get one handle, however their looks for it mix, so all content calls on the
  card ask for one lock.
- `Traffic.locked_run`: in every run a call that goes about under the lock is the one that the desk names as its holder.
  So no two calls on one card do (`Locked.unique`).
-/
import Corkboard.Proofs.Api.Moments
import Corkboard.Desk.Opening

namespace Corkboard

/-! ## Handles -/

/-- one handle was made for a card that was opened, and it is kept -/
structure Handles.Single (hs : Handles) : Prop where
  kept : ∀ card h, hs.kept card = some h → h = ⟨card, 0⟩
  fresh : ∀ card, hs.kept card = none → hs.made card = 0

theorem Handles.Single.make {hs : Handles} (hh : hs.Single) {card : Uuid} (hnone : hs.kept card = none) :
    (hs.make card).Single := by
  constructor
  · intro other h hother
    simp only [Handles.make] at hother
    split at hother
    · rename_i he
      rw [← Option.some.inj hother, hh.fresh card hnone, he]
    · exact hh.kept other h hother
  · intro other hother
    simp only [Handles.make] at hother ⊢
    split at hother
    · cases hother
    · rename_i hne
      rw [if_neg hne]
      exact hh.fresh other hother

theorem Handles.Single.enter {hs : Handles} (hh : hs.Single) (card : Uuid) :
    (hs.enter card).1.Single ∧ (hs.enter card).2 = ⟨card, 0⟩ := by
  unfold Handles.enter
  cases hk : hs.kept card with
  | some h => exact ⟨hh, hh.kept card h hk⟩
  | none => exact ⟨hh.make hk, by rw [hh.fresh card hk]⟩

theorem HandlePhase.step_single {hs : Handles} {card : Uuid} {p : HandlePhase} (hh : hs.Single)
    (hp : ∀ h, p = .opened h → h = ⟨card, 0⟩) :
    (p.step hs card).1.Single ∧ ∀ h, (p.step hs card).2 = .opened h → h = ⟨card, 0⟩ := by
  cases p with
  | looking =>
    simp only [step]
    cases hk : hs.kept card with
    | some h =>
      refine ⟨hh, fun h' he => ?_⟩
      cases he
      exact hh.kept card h hk
    | none => exact ⟨hh, nofun⟩
  | entering =>
    obtain ⟨hh', hone⟩ := hh.enter card
    refine ⟨hh', fun h he => ?_⟩
    cases he
    exact hone
  | opened h => exact ⟨hh, hp⟩

namespace Openings

/-- one handle for each card, and whoever has opened a card has it -/
def Single (o : Openings) : Prop :=
  o.handles.Single ∧ ∀ card p, (card, p) ∈ o.asked → ∀ h, p = .opened h → h = ⟨card, 0⟩

theorem Single.take {o : Openings} (ho : o.Single) (e : Event) : (o.take e).Single := by
  obtain ⟨hh, hasked⟩ := ho
  cases e with
  | ask card =>
    refine ⟨hh, fun other p hp h he => ?_⟩
    rcases List.mem_append.1 hp with hp | hp
    · exact hasked other p hp h he
    · cases List.mem_singleton.1 hp
      cases he
  | step place =>
    cases hq : o.asked[place]? with
    | none =>
      simp only [Openings.take, hq]
      exact ⟨hh, hasked⟩
    | some q =>
      obtain ⟨card, p⟩ := q
      obtain ⟨hh', hp'⟩ := HandlePhase.step_single hh (hasked card p (List.mem_of_getElem? hq))
      simp only [Openings.take, hq]
      refine ⟨hh', fun other p' hp h he => ?_⟩
      rcases List.mem_or_eq_of_mem_set hp with hp | hp
      · exact hasked other p' hp h he
      · cases hp
        exact hp' h he

/-- **One handle for each card**, for all who open it. -/
theorem one_handle (es : List Event) {card : Uuid} {h : Handle} (ho : (card, .opened h) ∈ (new.run es).asked) :
    h = ⟨card, 0⟩ := by
  suffices hrun : (new.run es).Single from hrun.2 card _ ho h rfl
  clear ho
  induction es using List.reverseRecOn with
  | nil => exact ⟨⟨nofun, fun _ _ => rfl⟩, nofun⟩
  | append_singleton es e ih =>
    rw [run, List.foldl_append]
    exact ih.take e

-- neither of two finds a handle at the first look
example : (new.run [.ask ⟨1⟩, .ask ⟨1⟩, .step 0, .step 1, .step 0, .step 1]).asked =
    [(⟨1⟩, .opened ⟨⟨1⟩, 0⟩), (⟨1⟩, .opened ⟨⟨1⟩, 0⟩)] := rfl

end Openings

/-! ## Calls -/

theorem Phase.Bare.not_holdsLock {p : Phase} (hp : p.Bare) : p.holdsLock = false := by
  cases p with
  | reading | writing => exact hp.elim
  | _ => rfl

namespace Task

/-- the holder of a lock, and whether a call of a name goes about under it, before and after a step of the call -/
inductive Locking (name : Nat) : Option Nat → Bool → Option Nat → Bool → Prop
  | taken : Locking name none false (some name) true
  | kept {who} : Locking name who true who true
  | left {who} : Locking name who true none false
  | idle {who} : Locking name who false who false

variable {w : Ambient} {d : Desk History} {t : Task} {h h' : History} {card : Uuid} {p p' : Phase}

/-- only a call that asks for the lock goes under it -/
theorem Acts.not_holdsLock (ha : Acts w card h p h' p') (hp : p.holdsLock = false)
    (hasks : ∀ edit sequel, p ≠ .waiting edit sequel) :
    p'.holdsLock = false := by
  cases ha with
  | quiet hn =>
    cases hn with
    | locked | held => exact absurd rfl (hasks _ _)
    | read | again => cases hp
    | noted => exact (Phase.bare_afterBlock _ _).not_holdsLock
    | _ => rfl
  | replaced _ => rfl
  | edited _ _ => cases hp

/-- **What a step does to the lock** of its own handle. -/
theorem locking_step (w : Ambient) (d : Desk History) (t : Task) :
    Locking t.name (d.holder t.handle) t.phase.holdsLock ((t.step .plain w d).1.holder t.handle)
      (t.step .plain w d).2.phase.holdsLock := by
  have hset : ∀ (d : Desk History) (who : Option Nat), (d.setHolder t.handle who).holder t.handle = who :=
    fun d who => if_pos rfl
  by_cases hasks : ∃ edit sequel, t.phase = .waiting edit sequel
  · obtain ⟨edit, sequel, hp⟩ := hasks
    simp only [step, hp]
    split
    · rename_i hfree
      rw [hset, hfree]
      exact .taken
    · rw [hp]
      exact .idle
  · cases hholds : t.phase.holdsLock with
    | false =>
      have hacts := (t.step_acts w d).2
      rw [hacts.not_holdsLock hholds fun edit sequel hp => hasks ⟨edit, sequel, hp⟩]
      suffices hsame : (t.step .plain w d).1.holder t.handle = d.holder t.handle by
        rw [hsame]
        exact .idle
      cases hp : t.phase with
      | waiting edit sequel => exact absurd ⟨edit, sequel, hp⟩ hasks
      | reading | writing => rw [hp] at hholds; cases hholds
      | replacing new old =>
        simp only [step, hp]
        split <;> rfl
      | _ => simp only [step, hp, Desk.setNewest]
    | true =>
      cases hp : t.phase with
      | reading edit sequel attempt =>
        simp only [step, hp]
        split
        · split
          · exact .kept
          · rw [hset]
            exact .left
        · rw [hset]
          exact .left
      | writing edit sequel attempt card =>
        simp only [step, hp]
        split
        · rw [hset]
          exact .left
        · split
          · rw [hset]
            cases edit <;> exact .left
          · split
            · exact .kept
            · rw [hset]
              exact .left
      | _ => rw [hp] at hholds; cases hholds

/-- a call under the lock is the one that the desk names -/
def Locks (d : Desk History) (t : Task) : Prop := t.phase.holdsLock → d.holder t.handle = some t.name

theorem Locks.step (hl : t.Locks d) (w : Ambient) : (t.step .plain w d).2.Locks (t.step .plain w d).1 := by
  intro hholds
  have hlocking := locking_step w d t
  rw [(t.step_acts w d).1] at hholds ⊢
  cases hbefore : t.phase.holdsLock with
  | true =>
    rw [hl hbefore, hbefore, hholds] at hlocking
    generalize (t.step .plain w d).1.holder t.handle = after at hlocking ⊢
    cases hlocking
    rfl
  | false =>
    rw [hbefore, hholds] at hlocking
    generalize (t.step .plain w d).1.holder t.handle = after at hlocking ⊢
    generalize d.holder t.handle = before at hlocking
    cases hlocking
    rfl

theorem Locks.others (hl : t.Locks d) (w : Ambient) {handle : Handle} {who : Nat} (hheld : d.holder handle = some who)
    (hother : who ≠ t.name) : (t.step .plain w d).1.holder handle = some who := by
  by_cases hhandle : handle = t.handle
  · subst hhandle
    have hlocking := locking_step w d t
    cases hbefore : t.phase.holdsLock with
    | true =>
      have hown := hl hbefore
      rw [hheld] at hown
      exact absurd (Option.some.inj hown) hother
    | false =>
      rw [hbefore, hheld] at hlocking
      generalize (t.step .plain w d).2.phase.holdsLock = holds at hlocking
      generalize (t.step .plain w d).1.holder t.handle = after at hlocking ⊢
      cases hlocking
      rfl
  · rw [holder_step w d t hhandle, hheld]

end Task

/-! ## Requests -/

namespace RequestPhase

variable {w : AppWorld} {m : Ambient} {name : Nat} {a : App} {p : RequestPhase} {d : Desk History}

/-- the content call of the request at a place has its name and the shared handle of its card, and the lock if it goes
about under it -/
def Locks (d : Desk History) (place : Nat) : RequestPhase → Prop
  | call t _ => t.name = place ∧ t.handle.copy = 0 ∧ t.Locks d
  | _ => True

theorem locks_openCall (w : AppWorld) (a : App) (name : Nat) (card : Uuid) (purpose : Purpose) (k : Call) :
    (openCall w a name card purpose k).Locks d name := by
  unfold openCall
  split
  · trivial
  · refine ⟨rfl, rfl, fun hholds => ?_⟩
    rw [(Phase.bare_start _ _).not_holdsLock] at hholds
    cases hholds

theorem locks_begin (w : AppWorld) (m : Ambient) (name : Nat) (a : App) (c : Command) :
    (begin w m name a c).2.Locks d name := by
  cases c with
  | addContent | compose | updateContent | deleteContent | moveContent => exact locks_openCall _ _ _ _ _ _
  | putTemplate | calculate | getCard | previewCard | setProperty =>
    simp only [begin]
    split <;> trivial
  | undo | redo =>
    simp only [begin, ofHistory]
    split <;> trivial
  | _ => trivial

/-- **A step of a request** keeps its call and the lock together. -/
theorem Locks.step (hl : p.Locks a.desk name) (w : AppWorld) (m : Ambient) :
    (p.step w m name a).2.Locks (p.step w m name a).1.desk name := by
  cases p with
  | start c => exact locks_begin w m name a c
  | call t purpose =>
    obtain ⟨hname, hcopy, hlocks⟩ := hl
    have hstep := hlocks.step m
    simp only [RequestPhase.step, afterCall]
    split
    · trivial
    · refine ⟨?_, ?_, hstep⟩
      · rw [(t.step_acts m a.desk).1, hname]
      · rw [(t.step_acts m a.desk).1, hcopy]
  | search text q =>
    simp only [RequestPhase.step]
    split <;> trivial
  | compute | parseInput | writeProperty | readBack =>
    simp only [RequestPhase.step]
    split <;> trivial
  | _ => trivial

/-- a request without a content call leaves all locks alone -/
theorem holder_of_not_call (w : AppWorld) (m : Ambient) (name : Nat) (a : App) (hp : ∀ t purpose, p ≠ call t purpose) :
    (p.step w m name a).1.desk.holder = a.desk.holder := by
  cases p with
  | call t purpose => exact absurd rfl (hp t purpose)
  | start c =>
    cases c with
    | putTemplate | calculate | getCard | previewCard | setProperty =>
      simp only [step, begin]
      split <;> rfl
    | undo | redo =>
      simp only [step, begin, ofHistory]
      split <;> rfl
    | _ => rfl
  | compute | parseInput | writeProperty | readBack =>
    simp only [step]
    split <;> rfl
  | _ => rfl

/-- no request takes a lock from a call that holds it -/
theorem Locks.others (hl : p.Locks a.desk name) (w : AppWorld) (m : Ambient) {handle : Handle} {who : Nat}
    (hheld : a.desk.holder handle = some who) (hother : who ≠ name) :
    (p.step w m name a).1.desk.holder handle = some who := by
  by_cases hcall : ∃ t purpose, p = call t purpose
  · obtain ⟨t, purpose, rfl⟩ := hcall
    obtain ⟨rfl, -, hlocks⟩ := hl
    exact hlocks.others m hheld hother
  · rw [holder_of_not_call w m name a fun t purpose hp => hcall ⟨t, purpose, hp⟩, hheld]

/-- a call keeps its lock while others take their steps -/
theorem Locks.mono {place : Nat} {d' : Desk History} (hl : p.Locks d place)
    (hheld : ∀ handle, d.holder handle = some place → d'.holder handle = some place) : p.Locks d' place := by
  cases p with
  | call t purpose =>
    obtain ⟨rfl, hcopy, hlocks⟩ := hl
    exact ⟨rfl, hcopy, fun hholds => hheld _ (hlocks hholds)⟩
  | _ => trivial

end RequestPhase

/-! ## Runs -/

namespace Traffic

variable {t : Traffic}

/-- every call under a lock is the one that the desk names -/
def Locked (t : Traffic) : Prop :=
  ∀ (place : Nat) (q : Asked), t.requests[place]? = some q → q.phase.Locks t.app.desk place

theorem Locked.take (hl : t.Locked) (w : AppWorld) (e : Event) : (t.take w e).Locked := by
  intro place q hq
  cases e with
  | arrive c =>
    simp only [Traffic.take] at hq
    rw [Places.getElem?_concat_eq_some_iff] at hq
    rcases hq with hq | ⟨-, rfl⟩
    · exact hl place q hq
    · trivial
  | step other m =>
    cases hr : t.requests[other]? with
    | none =>
      simp only [Traffic.take, hr] at hq ⊢
      exact hl place q hq
    | some r =>
      have hlr := hl other r hr
      rw [(take_step w hr m).2, Places.getElem?_set_eq_some_iff (List.getElem?_eq_some_iff.1 hr).1] at hq
      rw [(take_step w hr m).1]
      rcases hq with ⟨rfl, rfl⟩ | ⟨hne, hq⟩
      · exact hlr.step w m
      · exact (hl place q hq).mono fun handle hheld => hlr.others w m hheld hne

theorem locked_run (w : AppWorld) (es : List Event) : (new.run w es).Locked := by
  induction es using List.reverseRecOn with
  | nil => simp [Locked, run, new]
  | append_singleton es e ih =>
    rw [run_snoc]
    exact ih.take w e

/-- **One call at a time.** Two calls under the lock of one card are the same. -/
theorem Locked.unique (hl : t.Locked) {place place' : Nat} {q q' : Asked} {task task' : Task}
    {purpose purpose' : Purpose} (hq : t.requests[place]? = some q) (hq' : t.requests[place']? = some q')
    (hp : q.phase = .call task purpose) (hp' : q'.phase = .call task' purpose')
    (hcard : task.handle.card = task'.handle.card) (hholds : task.phase.holdsLock)
    (hholds' : task'.phase.holdsLock) : place = place' := by
  have hlq := hl place q hq
  have hlq' := hl place' q' hq'
  rw [hp] at hlq
  rw [hp'] at hlq'
  obtain ⟨rfl, hcopy, hlocks⟩ := hlq
  obtain ⟨rfl, hcopy', hlocks'⟩ := hlq'
  have hhandle : task.handle = task'.handle := by
    calc task.handle = ⟨task.handle.card, task.handle.copy⟩ := rfl
      _ = ⟨task'.handle.card, task'.handle.copy⟩ := by rw [hcard, hcopy, hcopy']
  have hheld := hlocks hholds
  rw [hhandle, hlocks' hholds'] at hheld
  exact (Option.some.inj hheld).symm

end Traffic

end Corkboard
