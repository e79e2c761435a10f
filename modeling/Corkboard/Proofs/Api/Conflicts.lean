/-
What a request is told that loses to others at every attempt.

A group that is refused as stale is worth another try, and a step of the history that fails so says it
(`HistoryError.report`). A content call makes these tries itself, four in all, and then fails with the error of the last
one. Does its answer say the same as the error that it carries?

- `entered`: a request stands at a phase because one of its own steps took it there from another.
- `refusals_before`, `staleThroughout_of_fail`: a call that reads again has been refused as stale once for each attempt,
  and one that fails as stale four times.
- `fail_of_staleThroughout`: after the fourth refusal of an edit the request has failed for good.
- `conflict_not_retryable`: the answer is a conflict under the code of a stale order, with the same message, and without
  the word that another try is worth it. Of all errors of the history only a stale order is told differently by a
  content call.
-/
import Corkboard.Proofs.Api.Staleness

namespace Corkboard

/-! ## Reports -/

theorem HistoryError.isStale_iff {e : HistoryError} : e.isStale = true ↔ ∃ id, e = .store (.staleOrder id) := by
  constructor
  · intro h
    unfold isStale at h
    split at h
    · exact ⟨_, rfl⟩
    · cases h
  · rintro ⟨id, rfl⟩
    rfl

theorem HistoryError.report_retryable (e : HistoryError) : e.report.retryable = e.isStale := by
  cases e <;> rfl

/-- a content call tells an error of the history as the history does, but never as worth another try -/
theorem ApiError.ofCall_history (e : HistoryError) :
    ofCall (.history e) = ⟨(ofHistory e).status, { (ofHistory e).report with retryable := false }⟩ := rfl

/-! ## Calls -/

/-- what goes on under the lock carries something to write back -/
theorem Phase.not_bare_of_holdsLock {p : Phase} (hp : p.holdsLock = true) : ¬ p.Bare := by
  intro hb
  rw [hb.not_holdsLock] at hp
  cases hp

theorem Phase.start_not_stale (r : ContentRegistry) (k : Call) : ¬ (start r k).EndsStale := by
  rintro ⟨id, hid⟩
  cases k with
  | add tag index =>
    simp only [start] at hid
    split at hid <;> cases hid
  | save draft index =>
    obtain ⟨_ | block, tag, value⟩ := draft <;> cases hid
  | compose lines index =>
    simp only [start] at hid
    generalize Editor.enterLines r .new lines = drafts at hid
    cases drafts <;> cases hid
  | _ => cases hid

namespace Task

variable {w : Ambient} {card id : Uuid} {h h' : History} {p : Phase} {edit : OrderEdit} {sequel : Sequel}
    {attempt : Nat}
  {c : Card}

/-- a call reads for the first time when it has the lock, and again when a group was refused as stale -/
theorem Acts.to_reading (ha : Acts w card h p h' (.reading edit sequel attempt)) : attempt = 0 ∨
    ∃ k c group order e, attempt = k + 1 ∧ p = .writing edit sequel k c ∧ edit.group c = .ok (group, order) ∧
      h.commit w.now group = .error e ∧ e.isStale = true ∧ k < orderRetries := by
  generalize hp' : Phase.reading edit sequel attempt = p' at ha
  cases ha with
  | quiet hn =>
    cases hn with
    | locked =>
      cases hp'
      exact .inl rfl
    | again hg hcommit hstale hlt =>
      cases hp'
      exact .inr ⟨_, _, _, _, _, rfl, rfl, hg, hcommit, hstale, hlt⟩
    | noted => exact absurd (hp' ▸ Phase.bare_afterBlock _ _) (Phase.not_bare_of_holdsLock rfl)
    | _ => cases hp'
  | replaced _ => cases hp'
  | edited _ _ => exact absurd (hp' ▸ Phase.bare_afterEdit _ _ _) (Phase.not_bare_of_holdsLock rfl)

/-- a call writes what it has just read -/
theorem Acts.to_writing (ha : Acts w card h p h' (.writing edit sequel attempt c)) :
    p = .reading edit sequel attempt := by
  generalize hp' : Phase.writing edit sequel attempt c = p' at ha
  cases ha with
  | quiet hn =>
    cases hn with
    | read _ _ =>
      cases hp'
      rfl
    | noted => exact absurd (hp' ▸ Phase.bare_afterBlock _ _) (Phase.not_bare_of_holdsLock rfl)
    | _ => cases hp'
  | replaced _ => cases hp'
  | edited _ _ => exact absurd (hp' ▸ Phase.bare_afterEdit _ _ _) (Phase.not_bare_of_holdsLock rfl)

/-- a call that ends as stale has ended before, or its last group is refused -/
theorem Acts.to_stale (ha : Acts w card h p h' (.done (.error (.history (.store (.staleOrder id)))))) :
    p.EndsStale ∨ ∃ edit sequel attempt c group order, p = .writing edit sequel attempt c ∧
      edit.group c = .ok (group, order) ∧ h.commit w.now group = .error (.store (.staleOrder id)) ∧
      orderRetries ≤ attempt := by
  generalize hp' : Phase.done (.error (.history (.store (.staleOrder id)))) = p' at ha
  cases ha with
  | quiet hn =>
    rcases Phase.fails_of_next hn hp'.symm with hp | hf
    · exact .inl ⟨id, hp⟩
    · exact .inr (Phase.stale_of_fails hf)
  | replaced _ => cases hp'
  | @edited edit => cases edit <;> cases hp'

/-- the last group that is refused as stale ends the call -/
theorem Acts.of_last_refusal {group : List Mutation} {order : List Uuid} {p' : Phase}
    (ha : Acts w card h (.writing edit sequel orderRetries c) h' p') (hg : edit.group c = .ok (group, order))
    (hcommit : h.commit w.now group = .error (.store (.staleOrder id))) :
    p' = .done (.error (.history (.store (.staleOrder id)))) := by
  cases ha with
  | quiet hn =>
    cases hn with
    | again _ _ _ hlt => exact absurd hlt (Nat.lt_irrefl _)
    | failed hf =>
      rcases hf with hg' | ⟨group', order', x, hg', hcommit', -, rfl⟩
      · cases hg.symm.trans hg'
      · cases hg.symm.trans hg'
        cases hcommit.symm.trans hcommit'
        rfl
  | edited hg' hcommit' =>
    cases hg.symm.trans hg'
    cases hcommit.symm.trans hcommit'

end Task

namespace RequestPhase

variable {purpose : Purpose} {t : Task}

/-- a request goes about a call that starts, or one that a step of its own has not ended -/
theorem Acts.to_call {m : Ambient} {h h' : History} {p : RequestPhase} (ha : Acts m h p h' (.call t purpose)) :
    (∃ r k, t.phase = .start r k) ∨ (t.phase.result? = none ∧ ∃ t', p = .call t' purpose ∧ t.handle = t'.handle ∧
      Task.Acts m t'.handle.card h t'.phase h' t.phase) := by
  generalize hp' : RequestPhase.call t purpose = p' at ha
  cases ha with
  | calm hc =>
    cases hc with
    | opened _ _ =>
      cases hp'
      exact .inl ⟨_, _, rfl⟩
    | began _ hreads =>
      subst hp'
      exact hreads.elim
    | went _ hreads =>
      subst hp'
      rcases hreads with hreads | hreads
      · exact hreads.elim
      · cases hreads
    | _ => cases hp'
  | @called t' _ _ p' hacts =>
    obtain ⟨rfl, rfl, hr⟩ := afterCall_eq_call hp'.symm
    exact .inr ⟨hr, t', rfl, rfl, hacts⟩
  | _ => cases hp'

/-- a step at which a content request fails as stale is the step at which its call does -/
theorem acts_of_stale {w : AppWorld} {m : Ambient} {name : Nat} {a : App} {p : RequestPhase} {command : Command}
    {card : Uuid} {k : Call} {x : ApiError} (hcall : command.call? = some (card, purpose, k)) (hcalls : p.Calls command)
    (hown : p.Of command) (hne : p ≠ .fail x) (hstep : (p.step w m name a).2 = .fail x) (hx : x.TellsStale) :
    ∃ task id h', p = .call task purpose ∧ task.handle.card = card ∧
      Task.Acts m card a.desk.doc task.phase h' (.done (.error (.history (.store (.staleOrder id))))) := by
  cases p with
  | start c =>
    obtain rfl : c = command := hcalls
    simp only [step, begin_of_call? hcall, openCall] at hstep
    split at hstep
    · cases hstep
      obtain ⟨id, hid⟩ := CallError.stale_of_tells hx
      cases hid
    · cases hstep
  | call task purpose' =>
    rw [step_call] at hstep
    obtain ⟨k', hk'⟩ := hown.1
    cases hcall.symm.trans hk'
    obtain ⟨-, hacts⟩ := task.step_acts m a.desk
    obtain ⟨y, hy, hreply⟩ := afterCall_eq_done hstep
    obtain ⟨z, rfl, rfl⟩ := ofResult_eq_failed hreply.symm
    obtain ⟨id, rfl⟩ := CallError.stale_of_tells hx
    rw [hy] at hacts
    exact ⟨task, id, _, rfl, rfl, hacts⟩
  | done reply => exact absurd hstep hne
  | _ =>
    have hnone : command.call? = none := hcalls
    rw [hcall] at hnone
    cases hnone

end RequestPhase

namespace Traffic

variable {w : AppWorld} {es : List Event} {place n : Nat} {card : Uuid} {p : Phase} {edit : OrderEdit} {sequel : Sequel}
  {attempt : Nat} {c : Card} {ns : List Nat}

/-! ## Where a phase comes from -/

/-- **Where a phase comes from.** A request that does not stand where it started was taken where it stands by a step of
its own, from another phase. -/
theorem entered {r : Asked} (hr : (moment w es n).requests[place]? = some r) : r.phase = .start r.command ∨
    ∃ i < n, ∃ m q, es[i]? = some (.step place m) ∧ (moment w es i).requests[place]? = some q ∧ q.command = r.command ∧
      q.phase ≠ r.phase ∧ (q.phase.step w m place (moment w es i).app).2 = r.phase := by
  induction n generalizing r with
  | zero => simp [moment, run, new] at hr
  | succ n ih =>
    have hearlier : (moment w es n).requests[place]? = some r → r.phase = .start r.command ∨
        ∃ i < n + 1, ∃ m q, es[i]? = some (.step place m) ∧ (moment w es i).requests[place]? = some q ∧
          q.command = r.command ∧ q.phase ≠ r.phase ∧ (q.phase.step w m place (moment w es i).app).2 = r.phase := by
      intro hr
      rcases ih hr with hstart | hentered
      · exact .inl hstart
      · obtain ⟨i, hi, hentered⟩ := hentered
        exact .inr ⟨i, Nat.lt_succ_of_lt hi, hentered⟩
    cases he : es[n]? with
    | none =>
      -- the run has ended before
      rw [moment, List.take_add_one, he, Option.toList_none, List.append_nil] at hr
      exact hearlier hr
    | some e =>
      rw [moment_succ w he] at hr
      rcases requests_take hr with ⟨hr, -⟩ | ⟨c, -, rfl⟩ | ⟨m, q, rfl, hq, rfl⟩
      · exact hearlier hr
      · exact .inl rfl
      · by_cases hsame : q.phase = (q.phase.step w m place (moment w es n).app).2
        · refine hearlier ?_
          rw [hq, ← hsame]
        · exact .inr ⟨n, Nat.lt_succ_self n, m, q, he, hq, rfl, hsame, rfl⟩

/-- a call stands where it starts, or a step of its own took it there and did not end it -/
theorem Stands.entered (hs : (moment w es n).Stands place card p) : (∃ r k, p = .start r k) ∨ (p.result? = none ∧
    ∃ i < n, ∃ m p₀ h', es[i]? = some (.step place m) ∧ (moment w es i).Stands place card p₀ ∧
      Task.Acts m card (moment w es i).history p₀ h' p) := by
  obtain ⟨r, task, purpose, hr, hphase, rfl, rfl⟩ := hs
  rcases Traffic.entered hr with hstart | ⟨i, hi, m, q, he, hq, -, -, hstep⟩
  · rw [hphase] at hstart
    cases hstart
  · have hacts := RequestPhase.step_acts w m place (moment w es i).app q.phase
    rw [hstep, hphase] at hacts
    rcases hacts.to_call with hstart | ⟨hnone, t, hp, hhandle, htask⟩
    · exact .inl hstart
    · rw [hhandle]
      exact .inr ⟨hnone, i, hi, m, t.phase, _, he, ⟨q, t, purpose, hq, hp, rfl, rfl⟩, htask⟩

theorem Stands.not_stale (hs : (moment w es n).Stands place card p) : ¬ p.EndsStale := by
  rintro ⟨id, rfl⟩
  rcases hs.entered with ⟨r, k, hstart⟩ | ⟨hnone, -⟩
  · exact Phase.start_not_stale r k ⟨id, hstart.symm⟩
  · cases hnone

/-! ## Refusals -/

/-- an event of a run is the step at which the request at a place applies the group of an attempt, which is refused as
stale -/
def RefusedAt (w : AppWorld) (es : List Event) (place : Nat) (card : Uuid) (edit : OrderEdit) (sequel : Sequel)
    (attempt n : Nat) : Prop :=
  ∃ m c group order id, es[n]? = some (.step place m) ∧
    (moment w es n).Stands place card (.writing edit sequel attempt c) ∧ edit.group c = .ok (group, order) ∧
    (moment w es n).history.commit m.now group = .error (.store (.staleOrder id))

/-- attempts at one edit, one after the other, and all of them refused as stale -/
structure Refusals (w : AppWorld) (es : List Event) (place : Nat) (card : Uuid) (edit : OrderEdit) (sequel : Sequel)
    (ns : List Nat) : Prop where
  each : ∀ (j n : Nat), ns[j]? = some n → RefusedAt w es place card edit sequel j n
  inTurn : ns.Pairwise (· < ·)

/-- an edit of the request was refused as stale at every attempt -/
def StaleThroughout (w : AppWorld) (es : List Event) (place : Nat) (card : Uuid) : Prop :=
  ∃ edit sequel ns, ns.length = orderRetries + 1 ∧ Refusals w es place card edit sequel ns

theorem Refusals.concat (hr : Refusals w es place card edit sequel ns)
    (hn : RefusedAt w es place card edit sequel ns.length n) (hlater : ∀ i ∈ ns, i < n) :
    Refusals w es place card edit sequel (ns ++ [n]) := by
  constructor
  · intro j i hi
    rcases Places.getElem?_concat_eq_some_iff.1 hi with hi | ⟨rfl, rfl⟩
    · exact hr.each j i hi
    · exact hn
  · refine List.pairwise_append.2 ⟨hr.inTurn, List.pairwise_singleton _ _, fun i hi x hx => ?_⟩
    obtain rfl := List.mem_singleton.1 hx
    exact hlater i hi

/-- a call that writes has read before -/
theorem Stands.reading_before (hs : (moment w es n).Stands place card (.writing edit sequel attempt c)) :
    ∃ i < n, (moment w es i).Stands place card (.reading edit sequel attempt) := by
  rcases hs.entered with ⟨r, k, hstart⟩ | ⟨-, i, hi, m, p₀, h', -, hp₀, hacts⟩
  · exact absurd (hstart ▸ Phase.bare_start r k) (Phase.not_bare_of_holdsLock rfl)
  · obtain rfl := hacts.to_writing
    exact ⟨i, hi, hp₀⟩

/-- **Attempts and their refusals.** A call that reads has been refused as stale once for each attempt before. -/
theorem refusals_before (hs : (moment w es n).Stands place card (.reading edit sequel attempt)) :
    attempt ≤ orderRetries ∧
      ∃ ns, ns.length = attempt ∧ Refusals w es place card edit sequel ns ∧ ∀ i ∈ ns, i < n := by
  induction attempt generalizing n with
  | zero => exact ⟨Nat.zero_le _, [], rfl, ⟨fun j i hi => by simp at hi, .nil⟩, by simp⟩
  | succ attempt ih =>
    rcases hs.entered with ⟨r, k, hstart⟩ | ⟨-, i, hi, m, p₀, h', he, hp₀, hacts⟩
    · exact absurd (hstart ▸ Phase.bare_start r k) (Phase.not_bare_of_holdsLock rfl)
    rcases hacts.to_reading with hzero | ⟨k, c, group, order, e, hk, rfl, hg, hcommit, hstale, hlt⟩
    · exact absurd hzero (Nat.succ_ne_zero _)
    obtain rfl := Nat.succ.inj hk
    obtain ⟨id, rfl⟩ := HistoryError.isStale_iff.1 hstale
    -- the group that was refused was built from a reading, before which there were the earlier refusals
    obtain ⟨j, hj, hreading⟩ := hp₀.reading_before
    obtain ⟨-, ns, rfl, hrefusals, hearlier⟩ := ih hreading
    have hbefore : ∀ x ∈ ns, x < i := fun x hx => Nat.lt_trans (hearlier x hx) hj
    refine ⟨hlt, ns ++ [i], by simp, hrefusals.concat ⟨m, c, group, order, id, he, hp₀, hg, hcommit⟩ hbefore, ?_⟩
    intro x hx
    rcases List.mem_append.1 hx with hx | hx
    · exact Nat.lt_trans (hbefore x hx) hi
    · obtain rfl := List.mem_singleton.1 hx
      exact hi

variable {r : Asked} {purpose : Purpose} {k : Call} {x : ApiError}

/-- a content request that fails as stale: the last group of its call was refused -/
theorem last_refusal_of_fail (hr : (moment w es n).requests[place]? = some r)
    (hcall : r.command.call? = some (card, purpose, k)) (hphase : r.phase = .fail x) (hx : x.TellsStale) :
    ∃ edit sequel attempt i, RefusedAt w es place card edit sequel attempt i ∧ orderRetries ≤ attempt := by
  rcases entered hr with hstart | ⟨i, -, m, q, he, hq, hcommand, hne, hstep⟩
  · rw [hphase] at hstart
    cases hstart
  have hmem := List.mem_of_getElem? hq
  have hcalls : q.phase.Calls q.command := calls_run w _ q hmem
  have hown : q.phase.Of q.command := own_run w _ q hmem
  rw [hcommand] at hcalls hown
  rw [hphase] at hne hstep
  obtain ⟨task, id, h', hp, rfl, hacts⟩ := RequestPhase.acts_of_stale hcall hcalls hown hne hstep hx
  have hstands : (moment w es i).Stands place task.handle.card task.phase := ⟨q, task, purpose, hq, hp, rfl, rfl⟩
  rcases hacts.to_stale with hended | ⟨edit, sequel, attempt, c, group, order, hwriting, hg, hcommit, hlast⟩
  · exact absurd hended hstands.not_stale
  · rw [hwriting] at hstands
    exact ⟨edit, sequel, attempt, i, ⟨m, c, group, order, id, he, hstands, hg, hcommit⟩, hlast⟩

theorem staleThroughout_of_fail (hr : (new.run w es).requests[place]? = some r)
    (hcall : r.command.call? = some (card, purpose, k)) (hphase : r.phase = .fail x) (hx : x.TellsStale) :
    StaleThroughout w es place card := by
  rw [← moment_length] at hr
  obtain ⟨edit, sequel, attempt, i, hlast, hle⟩ := last_refusal_of_fail hr hcall hphase hx
  obtain ⟨m, c, group, order, id, he, hstands, hg, hcommit⟩ := id hlast
  obtain ⟨j, hj, hreading⟩ := hstands.reading_before
  obtain ⟨hfew, ns, rfl, hrefusals, hearlier⟩ := refusals_before hreading
  refine ⟨edit, sequel, ns ++ [i], ?_, hrefusals.concat hlast fun x hx => Nat.lt_trans (hearlier x hx) hj⟩
  rw [List.length_append, Nat.le_antisymm hfew hle]
  rfl

/-- a request that has its reply keeps it -/
theorem ended_run {t : Traffic} {reply : Reply} (hr : t.requests[place]? = some r) (hd : r.phase = .done reply)
    (es : List Event) : (t.run w es).requests[place]? = some r := by
  induction es generalizing t with
  | nil => exact hr
  | cons e es ih =>
    refine ih ?_
    cases e with
    | arrive c =>
      rw [take, List.getElem?_append_left (List.getElem?_eq_some_iff.1 hr).1]
      exact hr
    | step other m =>
      cases hq : t.requests[other]? with
      | none => simp only [take, hq, hr]
      | some q =>
        by_cases hother : other = place
        · subst hother
          cases hr.symm.trans hq
          have hsame : (r.phase.step w m other t.app).2 = r.phase := by rw [hd]; rfl
          rw [getElem?_take_step w hq m, hsame]
        · rw [(take_step w hq m).2, List.getElem?_set_ne hother, hr]

/-- after the last refusal the request has failed, and it stays so -/
theorem fail_of_staleThroughout (hs : StaleThroughout w es place card) (hr : (new.run w es).requests[place]? = some r) :
    ∃ id, r.phase = .fail (.ofCall (.history (.store (.staleOrder id)))) := by
  obtain ⟨edit, sequel, ns, hlength, hrefusals⟩ := hs
  have hlast : ns[orderRetries]? = some ns[orderRetries] := List.getElem?_eq_getElem (hlength ▸ Nat.lt_succ_self _)
  obtain ⟨m, c, group, order, id, he, ⟨q, task, purpose, hq, hp, hcard, hphase⟩, hg, hcommit⟩ :=
    hrefusals.each _ _ hlast
  obtain ⟨-, hacts⟩ := task.step_acts m (moment w es ns[orderRetries]).app.desk
  rw [hphase] at hacts
  have hended := hacts.of_last_refusal hg hcommit
  have hfailed : (q.phase.step w m place (moment w es ns[orderRetries]).app).2 =
      .fail (.ofCall (.history (.store (.staleOrder id)))) := by
    rw [hp, RequestPhase.step_call, RequestPhase.afterCall, hended]
    rfl
  have hnext := getElem?_take_step w hq m
  rw [← moment_succ w he] at hnext
  have hend := ended_run (w := w) hnext hfailed (es.drop (ns[orderRetries] + 1))
  rw [run_moment, hr] at hend
  cases hend
  exact ⟨id, hfailed⟩

/-- **Conflicts are told as final.** In every run a content request is answered under the code of a stale order exactly
if an edit of its was refused as stale at every attempt, and then with status 409 and without the word that another try
is worth it. So the answer of a content call to an error of the history has the status, the code and the message with
which the history tells it, and it agrees on another try unless the order was stale: of that error the history says that
it is worth one. -/
theorem conflict_not_retryable (w : AppWorld) :
    (∀ (es : List Event) (place : Nat) (q : Asked) (card : Uuid) (purpose : Purpose) (k : Call),
      (new.run w es).requests[place]? = some q → q.command.call? = some (card, purpose, k) →
        (StaleThroughout w es place card ↔ ∃ x, q.phase = .fail x ∧ x.TellsStale) ∧
        ∀ x, q.phase = .fail x → x.TellsStale → x.status.code = 409 ∧ x.report.retryable = false) ∧
    ∀ e : HistoryError,
      (ApiError.ofCall (.history e)).status = (ApiError.ofHistory e).status ∧
      (ApiError.ofCall (.history e)).report.code = (ApiError.ofHistory e).report.code ∧
      (ApiError.ofCall (.history e)).report.message = (ApiError.ofHistory e).report.message ∧
      (ApiError.ofHistory e).report.retryable = e.isStale ∧
          (ApiError.ofCall (.history e)).report.retryable = false := by
  refine ⟨fun es place q card purpose k hq hcall => ⟨⟨fun hs => ?_, ?_⟩, fun x hphase hx => ?_⟩, fun e => ?_⟩
  · obtain ⟨id, hphase⟩ := fail_of_staleThroughout hs hq
    exact ⟨_, hphase, rfl⟩
  · rintro ⟨x, hphase, hx⟩
    exact staleThroughout_of_fail hq hcall hphase hx
  · obtain ⟨id, hphase'⟩ := fail_of_staleThroughout (staleThroughout_of_fail hq hcall hphase hx) hq
    rw [hphase] at hphase'
    cases hphase'
    exact ⟨rfl, rfl⟩
  · rw [ApiError.ofCall_history]
    exact ⟨rfl, rfl, rfl, e.report_retryable, rfl⟩

/-- a card with two blocks; whenever the first is about to be moved, the second is undone or redone -/
def outrun : List Event :=
  [.arrive (.createCard none none), .step 0 ⟨0, ⟨1⟩, ⟨900⟩⟩, .arrive (.addContent ⟨1⟩ "text" none),
    .arrive (.addContent ⟨1⟩ "text" none), .arrive (.moveContent ⟨1⟩ ⟨4⟩ 1), .arrive .undo, .arrive .redo,
    .arrive .undo, .arrive .redo] ++
  [1, 1, 1, 1, 1, 1, 1, 2, 2, 2, 2, 2, 2, 2, 3, 3, 3, 4, 3, 3, 5, 3, 3, 6, 3, 3, 7, 3].mapIdx fun k place =>
    .step place ⟨k, ⟨.ofNat 128 (k + 2)⟩, .nil⟩

theorem outrun_move_told_final : ∃ q x, (new.run (.ofConfig .default) outrun).requests[3]? = some q ∧
    q.command = .moveContent ⟨1⟩ ⟨4⟩ 1 ∧ q.phase = .fail x ∧ x.TellsStale ∧
    StaleThroughout (.ofConfig .default) outrun 3 ⟨1⟩ ∧ x.status.code = 409 ∧ x.report.retryable = false := by
  have hq : (new.run (.ofConfig .default) outrun).requests[3]? = some ⟨.moveContent ⟨1⟩ ⟨4⟩ 1,
      .fail (.ofCall (.history (.store (.staleOrder ⟨1⟩))))⟩ := rfl
  obtain ⟨hiff, htold⟩ := (conflict_not_retryable (.ofConfig .default)).1 outrun 3 _ ⟨1⟩ _ _ hq rfl
  obtain ⟨hstatus, hfinal⟩ := htold _ rfl rfl
  exact ⟨_, _, hq, rfl, rfl, rfl, hiff.2 ⟨_, rfl, rfl⟩, hstatus, hfinal⟩

/-- a composition that was refused as stale four times is not told to try again, and the history says of the same error
that another try is worth it -/
theorem interrupted_told_final : ∃ q x, (new.run (.ofConfig .default) interrupted).requests[1]? = some q ∧
    q.command = .compose ⟨1⟩ ["one", "two"] none ∧ StaleThroughout (.ofConfig .default) interrupted 1 ⟨1⟩ ∧
    q.phase = .fail x ∧ x = .ofCall (.history (.store (.staleOrder ⟨1⟩))) ∧ x.report.code = "E_STALE_ORDER" ∧
    x.report.retryable = false ∧ (ApiError.ofHistory (.store (.staleOrder ⟨1⟩))).report.retryable = true := by
  have hq : (new.run (.ofConfig .default) interrupted).requests[1]? = some ⟨.compose ⟨1⟩ ["one", "two"] none,
      .fail (.ofCall (.history (.store (.staleOrder ⟨1⟩))))⟩ := rfl
  exact ⟨_, _, hq, rfl, staleThroughout_of_fail hq rfl rfl rfl, rfl, rfl, rfl, rfl, rfl⟩

end Traffic

end Corkboard
