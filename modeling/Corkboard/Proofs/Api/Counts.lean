/-
How many groups a request commits.

A request that adds, edits, deletes or moves a block, or writes a property, commits one group, and a composition one for
each block that it answers; all others commit none. `written_of_reply` says so of every request that was answered
without an error, in every run. The invariant counts along the phases: what a phase has still to do decides what was
done before.
-/
import Corkboard.Proofs.Api.Step

namespace Corkboard

/-! ## Calls -/

namespace Call

/-- the call is answered by one block -/
def OneBlock : Call → Prop
  | add _ _ | save _ _ | updateValue _ _ | delete _ => True
  | _ => False

/-- the call is answered by a list of blocks -/
def Composes : Call → Prop
  | compose _ _ => True
  | _ => False

/-- the call is answered by an order -/
def Moves : Call → Prop
  | move _ _ => True
  | _ => False

/-- how many groups a call has committed that ends in an answer -/
def Answers (k : Call) (n : Nat) : CallAnswer → Prop
  | .block _ => k.OneBlock ∧ n = 1
  | .blocks bs => k.Composes ∧ n = bs.length
  | .order _ => k.Moves ∧ n = 1

end Call

def Sequel.Counts (k : Call) (n : Nat) : Sequel → Prop
  | answer => k.OneBlock ∧ n = 0
  | compose saved _ _ => k.Composes ∧ n = saved.length

def OrderEdit.Counts (k : Call) (n : Nat) (sequel : Sequel) : OrderEdit → Prop
  | insert _ _ => sequel.Counts k n
  | remove _ => k.OneBlock ∧ n = 0
  | move _ _ => k.Moves ∧ n = 0

/-- how many groups a call has committed at a phase -/
def Phase.Counts (k : Call) (n : Nat) : Phase → Prop
  | opening _ _ _ | making _ _ _ _ | seeking _ | fetching _ _ _ | replacing _ _ => k.OneBlock ∧ n = 0
  | drafting _ _ _ sequel => sequel.Counts k n
  | waiting edit sequel | reading edit sequel _ | writing edit sequel _ _ => edit.Counts k n sequel
  | noting _ sequel => ∃ before, n = before + 1 ∧ sequel.Counts k before
  | done (.ok a) => k.Answers n a
  | done (.error _) => True

namespace Phase

variable {k : Call} {n : Nat} {h : History} {w : Ambient} {card : Uuid} {p p' : Phase}

theorem counts_composing (hk : k.Composes) (saved : List Block) (index : Nat) (drafts : List Committed) :
    (composing saved index drafts).Counts k saved.length := by
  cases drafts with
  | nil => exact ⟨hk, rfl⟩
  | cons draft drafts => exact ⟨hk, rfl⟩

theorem counts_start (r : ContentRegistry) (k : Call) : (start r k).Counts k 0 := by
  cases k with
  | add tag index =>
    simp only [start]
    cases r.get? tag with
    | some handler => exact ⟨trivial, rfl⟩
    | none => trivial
  | save draft index =>
    obtain ⟨_ | id, tag, value⟩ := draft
    · exact ⟨trivial, rfl⟩
    · exact ⟨trivial, rfl⟩
  | compose lines index => exact counts_composing (k := .compose lines index) trivial [] _ _
  | updateValue id value => exact ⟨trivial, rfl⟩
  | delete id => exact ⟨trivial, rfl⟩
  | move id index => exact ⟨trivial, rfl⟩

theorem Counts.next (hc : p.Counts k n) (hn : Next h w card p p') : p'.Counts k n := by
  cases hn with
  | opened _ => exact hc
  | made _ => exact hc
  | drafted _ => exact hc
  | sought _ _ => exact hc
  | fetched _ _ => exact hc
  | locked => exact hc
  | held => exact hc
  | read _ _ => exact hc
  | again _ _ _ _ => exact hc
  | @noted b sequel =>
    obtain ⟨before, rfl, hseq⟩ := hc
    cases sequel with
    | answer =>
      obtain ⟨hk, rfl⟩ := hseq
      exact ⟨hk, rfl⟩
    | compose saved drafts index =>
      obtain ⟨hk, rfl⟩ := hseq
      have hmore := counts_composing hk (saved ++ [b]) index drafts
      rw [List.length_append] at hmore
      exact hmore
  | ended => exact hc
  | failed _ => trivial

/-- an edit commits one group -/
theorem counts_afterEdit {edit : OrderEdit} {sequel : Sequel} (hc : edit.Counts k n sequel) (order : List Uuid) :
    (Task.afterEdit edit sequel order).Counts k (n + 1) := by
  cases edit with
  | insert b index => exact ⟨n, rfl, hc⟩
  | remove b => exact ⟨hc.1, by rw [hc.2]⟩
  | move id index => exact ⟨hc.1, by rw [hc.2]⟩

end Phase

/-! ## Requests -/

namespace Command

/-- how many groups a request with this reply has committed; a reply that the request never gets says nothing -/
def pushes? : Command → Reply → Option Nat
  | addContent _ _ _, .newBlock _ => some 1
  | compose _ _ _, .newBlocks bs => some bs.length
  | updateContent _ _ _, .block _ => some 1
  | deleteContent _ _, .bare .noContent => some 1
  | moveContent _ _ _, .order _ => some 1
  | setProperty _ _ _, .card _ => some 1
  | addContent _ _ _, _ | compose _ _ _, _ | updateContent _ _ _, _ | deleteContent _ _, _ | moveContent _ _ _, _
  | setProperty _ _ _, _ => none
  | _, _ => some 0

def SetsProperty : Command → Prop
  | setProperty _ _ _ => True
  | _ => False

theorem pushes?_of_not_changes {c : Command} (hc : ¬ c.Changes) (reply : Reply) : c.pushes? reply = some 0 := by
  cases c with
  | undo | redo => exact (hc trivial).elim
  | createCard title rootId => exact (hc trivial).elim
  | setProperty card templateId value => exact (hc trivial).elim
  | addContent | compose | updateContent | deleteContent | moveContent => exact (hc rfl).elim
  | _ => rfl

end Command

namespace RequestPhase

/-- how many groups a request has committed at a phase; one that failed says nothing -/
def Counts (c : Command) (n : Nat) : RequestPhase → Prop
  | start c' => c' = c ∧ n = 0
  | call t purpose => ∃ card k, c.call? = some (card, purpose, k) ∧ t.phase.Counts k n
  | parseInput _ _ _ | writeProperty _ _ _ => c.SetsProperty ∧ n = 0
  | readBack _ => c.SetsProperty ∧ n = 1
  | done (.failed _) => True
  | done reply => c.pushes? reply = some n
  | _ => ¬ c.Changes ∧ n = 0

def groups : Option Deed → Nat
  | some (.wrote _) => 1
  | _ => 0

variable {c : Command} {n : Nat} {h h' : History} {m : Ambient} {p p' : RequestPhase}

theorem counts_done {reply : Reply} (hr : c.pushes? reply = some n) : (done reply).Counts c n := by
  cases reply <;> first | exact hr | trivial

theorem counts_reads (hr : p.Reads) : p.Counts c n ↔ ¬ c.Changes ∧ n = 0 := by
  cases p <;> first | exact Iff.rfl | exact hr.elim

/-- the reply to a call says how many groups it has committed -/
theorem pushes?_ofResult {card : Uuid} {purpose : Purpose} {k : Call} {a : CallAnswer}
    (hc : c.call? = some (card, purpose, k)) (ha : k.Answers n a) : c.pushes? (ofResult purpose (.ok a)) = some n := by
  cases c <;> cases hc
  case addContent => cases a <;> obtain ⟨hk, rfl⟩ := ha <;> first | rfl | exact hk.elim
  case compose => cases a <;> obtain ⟨hk, rfl⟩ := ha <;> first | rfl | exact hk.elim
  case updateContent => cases a <;> obtain ⟨hk, rfl⟩ := ha <;> first | rfl | exact hk.elim
  case deleteContent => cases a <;> obtain ⟨hk, rfl⟩ := ha <;> first | rfl | exact hk.elim
  case moveContent => cases a <;> obtain ⟨hk, rfl⟩ := ha <;> first | rfl | exact hk.elim

theorem counts_afterCall {t : Task} {purpose : Purpose} {card : Uuid} {k : Call}
    (hc : c.call? = some (card, purpose, k)) (hn : t.phase.Counts k n) : (afterCall purpose t).Counts c n := by
  obtain ⟨handle, name, phase⟩ := t
  cases phase with
  | done r =>
    rcases r with e | a
    · trivial
    · exact counts_done (pushes?_ofResult hc hn)
  | _ => exact ⟨card, k, hc, hn⟩

theorem Counts.calm (hc : p.Counts c n) (hp : Calm h p p') : p'.Counts c n := by
  cases hp with
  | failed _ => trivial
  | answered hch =>
    obtain ⟨rfl, rfl⟩ := hc
    exact counts_done (Command.pushes?_of_not_changes hch _)
  | began hch hr =>
    obtain ⟨rfl, rfl⟩ := hc
    exact (counts_reads hr).2 ⟨hch, rfl⟩
  | went hr hr' =>
    obtain ⟨hch, rfl⟩ := (counts_reads hr).1 hc
    rcases hr' with hr' | hr'
    · exact (counts_reads hr').2 ⟨hch, rfl⟩
    · cases p' <;> first | exact counts_done (Command.pushes?_of_not_changes hch _) | cases hr'
  | opened hcall _ =>
    obtain ⟨rfl, rfl⟩ := hc
    exact ⟨_, _, hcall, Phase.counts_start _ _⟩
  | asked _ =>
    obtain ⟨rfl, rfl⟩ := hc
    exact ⟨trivial, rfl⟩
  | parsed => exact hc
  | readAgain _ =>
    obtain ⟨hset, rfl⟩ := hc
    cases c <;> first | rfl | exact hset.elim
  | ended => exact hc

theorem Counts.step (hc : p.Counts c n) (ha : Acts m h p h' p') :
    p'.Counts c (n + groups (deed? h'.store p p')) := by
  cases ha with
  | calm hp =>
    rw [deed?_calm _ hp]
    exact hc.calm hp
  | @called t purpose _ _ hacts =>
    obtain ⟨handle, name, phase⟩ := t
    obtain ⟨card, k, hcall, hcount⟩ := hc
    cases hacts with
    | quiet hn =>
      rw [deed?_called_quiet _ hn]
      exact counts_afterCall hcall (hcount.next hn)
    | replaced hcommit =>
      rw [deed?_called_replaced _ rfl]
      obtain ⟨hk, rfl⟩ := hcount
      exact counts_afterCall hcall ⟨hk, rfl⟩
    | edited hg hcommit =>
      rw [deed?_called_edited _ rfl]
      exact counts_afterCall hcall (Phase.counts_afterEdit hcount _)
  | undone _ =>
    obtain ⟨rfl, rfl⟩ := hc
    exact rfl
  | redone _ =>
    obtain ⟨rfl, rfl⟩ := hc
    exact rfl
  | created =>
    obtain ⟨rfl, rfl⟩ := hc
    exact rfl
  | wrote _ =>
    obtain ⟨hset, rfl⟩ := hc
    exact ⟨hset, rfl⟩

end RequestPhase

/-! ## Traffic -/

namespace Traffic

variable {w : AppWorld} {t : Traffic}

/-- the groups of every request are counted, and no deed was logged before its request arrived -/
structure Counted (t : Traffic) : Prop where
  counts : ∀ {place : Nat} {r : Asked}, t.requests[place]? = some r → r.phase.Counts r.command (t.written place)
  arrived : ∀ e ∈ t.log, e.1 < t.requests.length

theorem counted_new : Counted new := ⟨by simp [new], by simp [new]⟩

theorem written_log (app : App) (requests : List Asked) (place place' : Nat) (d : Option Deed) :
    written ⟨app, requests, t.log ++ (d.map fun d => (place, d)).toList⟩ place' =
      t.written place' + if place = place' then RequestPhase.groups d else 0 := by
  simp only [written, List.countP_append]
  congr 1
  rcases d with _ | d
  · simp [RequestPhase.groups]
  · by_cases hp : place = place' <;> cases d <;> simp [hp, Deed.isWrite, RequestPhase.groups]

theorem Counted.take (hc : Counted t) (e : Event) : Counted (t.take w e) := by
  cases e with
  | arrive c =>
    refine ⟨fun {place r} hr => ?_, fun e he => ?_⟩
    · simp only [Traffic.take, List.getElem?_append] at hr
      split at hr
      · exact hc.counts hr
      · rename_i hlen
        obtain ⟨-, rfl⟩ : place - t.requests.length = 0 ∧ r = ⟨c, .start c⟩ := by
          rw [List.getElem?_singleton] at hr
          split at hr <;> simp_all
        refine ⟨rfl, List.countP_eq_zero.2 fun e he => ?_⟩
        have harrived := hc.arrived e he
        simp only [Bool.and_eq_true, decide_eq_true_eq, not_and]
        omega
    · have := hc.arrived e he
      simp only [Traffic.take, List.length_append]
      omega
  | step place m =>
    simp only [Traffic.take]
    cases hr : t.requests[place]? with
    | none => exact hc
    | some r =>
      have hacts := RequestPhase.step_acts w m place t.app r.phase
      have hlt : place < t.requests.length := (List.getElem?_eq_some_iff.1 hr).1
      refine ⟨fun {place' r'} hr' => ?_, fun e he => ?_⟩
      · rw [written_log]
        by_cases hp : place = place'
        · subst hp
          rw [List.getElem?_set_self hlt] at hr'
          cases hr'
          rw [if_pos rfl]
          exact (hc.counts hr).step hacts
        · rw [List.getElem?_set_ne hp] at hr'
          rw [if_neg hp]
          exact hc.counts hr'
      · rw [List.length_set]
        rcases List.mem_append.1 he with he | he
        · exact hc.arrived e he
        · obtain ⟨d, -, rfl⟩ := Option.map_eq_some_iff.1 (Option.mem_toList.1 he)
          exact hlt

theorem Counted.run (hc : Counted t) (es : List Event) : Counted (t.run w es) := by
  induction es generalizing t with
  | nil => exact hc
  | cons e es ih => exact ih (hc.take e)

/-- Every request that was answered without an error has committed as many groups as its reply tells. -/
theorem written_of_reply (w : AppWorld) (es : List Event) {place : Nat} {r : Asked} {reply : Reply}
    (hr : (new.run w es).requests[place]? = some r) (hdone : r.phase = .done reply) (hok : ∀ e, reply ≠ .failed e) :
    r.command.pushes? reply = some ((new.run w es).written place) := by
  have hcount := (counted_new.run (w := w) es).counts hr
  rw [hdone] at hcount
  cases reply <;> first | exact hcount | exact (hok _ rfl).elim

end Traffic

end Corkboard
