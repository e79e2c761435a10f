/-
Requests that are refused as stale.

A content request applies each group under the lock of its card, and all requests on the card ask for the same lock.
Undo and redo do not ask for it. So who can make a request fail because an order has changed underneath?

- `tried_run`: in every run, each attempt that a request has given up was overtaken by an undo or a redo, between its
  reading and its group.
- `stale_by_retracing_only`: a request is told so after four attempts, each overtaken by another undo or redo, and never
  by additions, deletions and moves, however many of them run at the same time.
-/
import Corkboard.Proofs.Api.Locks
import Corkboard.Proofs.Api.Orders
import Corkboard.Proofs.Api.Refusals

namespace Corkboard

/-- the error of an order that was stale at the last attempt -/
def ApiError.TellsStale (e : ApiError) : Prop := e.report.code = "E_STALE_ORDER"

theorem CallError.stale_of_tells {x : CallError} (hx : (ApiError.ofCall x).TellsStale) :
    ∃ id, x = .history (.store (.staleOrder id)) := by
  cases x with
  | history e =>
    rcases e with e | - | -
    · cases e with
      | staleOrder id => exact ⟨id, rfl⟩
      | _ => simp [ApiError.TellsStale, ApiError.ofCall, CallError.report, HistoryError.report, StoreError.code] at hx
    · simp [ApiError.TellsStale, ApiError.ofCall, CallError.report, HistoryError.report] at hx
    · simp [ApiError.TellsStale, ApiError.ofCall, CallError.report, HistoryError.report] at hx
  | content e => cases e <;> simp [ApiError.TellsStale, ApiError.ofCall, CallError.report] at hx
  | _ => simp [ApiError.TellsStale, ApiError.ofCall, CallError.report] at hx

theorem Phase.holdsLock_of_writesOrder {p : Phase} (hp : p.writesOrder) : p.holdsLock := by
  cases p <;> first | rfl | cases hp

namespace RequestPhase

/-- only a request without a content call goes through other phases than a content call does -/
def Calls (c : Command) : RequestPhase → Prop
  | start c' => c' = c
  | call _ _ | done _ => True
  | _ => c.call? = none

theorem calls_reads {c : Command} {p : RequestPhase} (hnone : c.call? = none) (hr : p.Reads) : p.Calls c := by
  cases p <;> first | exact hr.elim | exact hnone

theorem Calls.acts {c : Command} {h h' : History} {m : Ambient} {p p' : RequestPhase} (hp : p.Calls c)
    (ha : Acts m h p h' p') : p'.Calls c := by
  cases ha with
  | calm hc =>
    cases hc with
    | @began c' _ hn hr =>
      obtain rfl : c' = c := hp
      refine calls_reads ?_ hr
      cases c' <;> first | rfl | exact absurd rfl hn
    | went hr hr' =>
      have hnone : c.call? = none := by cases p <;> first | exact hr.elim | exact hp
      rcases hr' with hr' | hr'
      · exact calls_reads hnone hr'
      · cases p' <;> trivial
    | asked _ =>
      obtain rfl : _ = c := hp
      rfl
    | parsed => exact hp
    | _ => trivial
  | called _ =>
    unfold afterCall
    split <;> trivial
  | wrote _ => exact hp
  | _ => trivial

theorem begin_of_call? {c : Command} {card : Uuid} {purpose : Purpose} {k : Call}
    (hc : c.call? = some (card, purpose, k)) (w : AppWorld) (m : Ambient) (name : Nat) (a : App) :
    begin w m name a c = (a, openCall w a name card purpose k) := by
  cases c <;> cases hc <;> rfl

end RequestPhase

namespace Traffic

/-! ## Attempts -/

/-- the request at a place goes about a content call on the card, which stands at the phase -/
def Stands (t : Traffic) (place : Nat) (card : Uuid) (p : Phase) : Prop :=
  ∃ q task purpose, t.requests[place]? = some q ∧ q.phase = .call task purpose ∧ task.handle.card = card ∧
    task.phase = p

/-- an event of a run is a step of an undo or a redo that changes the order of the card -/
def Retraced (w : AppWorld) (es : List Event) (card : Uuid) (n : Nat) : Prop :=
  ∃ other m q, es[n]? = some (.step other m) ∧ (moment w es n).requests[other]? = some q ∧
    RequestPhase.Retraces q.phase (q.phase.step w m other (moment w es n).app).2 ∧
    (moment w es (n + 1)).history.orderOf card ≠ (moment w es n).history.orderOf card

/-- three events of an attempt: its reading, a change of the order, and its group -/
structure Attempt where
  reading : Nat
  change : Nat
  group : Nat

/-- the request at a place reads the card for an attempt -/
structure ReadsFor (w : AppWorld) (es : List Event) (place : Nat) (card : Uuid) (edit : OrderEdit) (sequel : Sequel)
    (attempt : Nat) (c : Card) (i : Nat) : Prop where
  step : StepsAt es place i
  stands : (moment w es i).Stands place card (.reading edit sequel attempt)
  card : (moment w es i).app.store.card? card = some c

/-- an attempt of the request at a place is overtaken by an undo or a redo: it comes between the reading of the card and
the group, which finds another order than it was built from -/
structure Overtaken (w : AppWorld) (es : List Event) (place : Nat) (card : Uuid) (edit : OrderEdit) (sequel : Sequel)
    (attempt : Nat) (v : Attempt) : Prop where
  retraced : Retraced w es card v.change
  between : v.reading < v.change ∧ v.change < v.group
  applies : StepsAt es place v.group
  found : ∃ c, ReadsFor w es place card edit sequel attempt c v.reading ∧
    (moment w es v.group).Stands place card (.writing edit sequel attempt c) ∧
    (moment w es v.group).history.orderOf card ≠ c.contentOrder

/-- attempts at one edit, one after the other, and all of them overtaken -/
structure AllOvertaken (w : AppWorld) (es : List Event) (place : Nat) (card : Uuid) (edit : OrderEdit) (sequel : Sequel)
    (vs : List Attempt) : Prop where
  each : ∀ (j : Nat) (v : Attempt), vs[j]? = some v → Overtaken w es place card edit sequel j v
  inTurn : vs.Pairwise fun v v' => v.group < v'.reading

/-- what the attempts of a call have met by a phase -/
def Tried (w : AppWorld) (es : List Event) (place : Nat) (card : Uuid) : Phase → Prop
  | .reading edit sequel attempt =>
    attempt ≤ orderRetries ∧ ∃ vs, vs.length = attempt ∧ AllOvertaken w es place card edit sequel vs
  | .writing edit sequel attempt c =>
    attempt ≤ orderRetries ∧ ∃ vs i, vs.length = attempt ∧ AllOvertaken w es place card edit sequel vs ∧
      (∀ v ∈ vs, v.group < i) ∧ ReadsFor w es place card edit sequel attempt c i ∧
      ((new.run w es).history.orderOf card = c.contentOrder ∨ ∃ u, i < u ∧ Retraced w es card u)
  | .done r => (Phase.done r).EndsStale →
    ∃ edit sequel vs, vs.length = orderRetries + 1 ∧ AllOvertaken w es place card edit sequel vs
  | _ => True

variable {w : AppWorld} {es : List Event} {e : Event} {place : Nat} {card : Uuid} {edit : OrderEdit} {sequel : Sequel}
  {attempt : Nat} {c : Card} {i n : Nat} {v : Attempt} {vs : List Attempt} {p : Phase}

theorem Retraced.lt (hr : Retraced w es card n) : n < es.length := by
  obtain ⟨other, m, q, he, -⟩ := hr
  exact (List.getElem?_eq_some_iff.1 he).1

theorem Retraced.append (hr : Retraced w es card n) (es' : List Event) : Retraced w (es ++ es') card n := by
  have hlt := hr.lt
  obtain ⟨other, m, q, he, hq, hretraces, hne⟩ := hr
  refine ⟨other, m, q, ?_, ?_, ?_, ?_⟩
  · rw [List.getElem?_append_left hlt, he]
  · rw [moment_append w es' (Nat.le_of_lt hlt), hq]
  · rw [moment_append w es' (Nat.le_of_lt hlt)]
    exact hretraces
  · rw [moment_append w es' (Nat.le_of_lt hlt), moment_append w es' hlt]
    exact hne

theorem ReadsFor.append (hr : ReadsFor w es place card edit sequel attempt c i) (es' : List Event) :
    ReadsFor w (es ++ es') place card edit sequel attempt c i := by
  have hle := Nat.le_of_lt hr.step.lt
  refine ⟨hr.step.append es', ?_, ?_⟩
  · rw [moment_append w es' hle]
    exact hr.stands
  · rw [moment_append w es' hle]
    exact hr.card

theorem Overtaken.append (ho : Overtaken w es place card edit sequel attempt v) (es' : List Event) :
    Overtaken w (es ++ es') place card edit sequel attempt v := by
  have hle := Nat.le_of_lt ho.applies.lt
  obtain ⟨c, hreads, hstands, hne⟩ := ho.found
  refine ⟨ho.retraced.append es', ho.between, ho.applies.append es', c, hreads.append es', ?_, ?_⟩
  · rw [moment_append w es' hle]
    exact hstands
  · rw [moment_append w es' hle]
    exact hne

theorem AllOvertaken.append (ha : AllOvertaken w es place card edit sequel vs) (es' : List Event) :
    AllOvertaken w (es ++ es') place card edit sequel vs :=
  ⟨fun j v hv => (ha.each j v hv).append es', ha.inTurn⟩

theorem AllOvertaken.group_lt (ha : AllOvertaken w es place card edit sequel vs) (hv : v ∈ vs) :
    v.group < es.length := by
  obtain ⟨j, hj⟩ := List.mem_iff_getElem?.1 hv
  exact (ha.each j v hj).applies.lt

theorem AllOvertaken.concat (ha : AllOvertaken w es place card edit sequel vs)
    (ho : Overtaken w es place card edit sequel vs.length v) (hlater : ∀ u ∈ vs, u.group < v.reading) :
    AllOvertaken w es place card edit sequel (vs ++ [v]) := by
  constructor
  · intro j u hu
    rcases Places.getElem?_concat_eq_some_iff.1 hu with hu | ⟨rfl, rfl⟩
    · exact ha.each j u hu
    · exact ho
  · refine List.pairwise_append.2 ⟨ha.inTurn, List.pairwise_singleton _ _, fun u hu x hx => ?_⟩
    obtain rfl := List.mem_singleton.1 hx
    exact hlater u hu

/-- the changes that overtake attempts are different events -/
theorem AllOvertaken.changes (ha : AllOvertaken w es place card edit sequel vs) :
    (vs.map (·.change)).Pairwise (· < ·) := by
  rw [List.pairwise_map]
  refine List.Pairwise.imp_of_mem ?_ ha.inTurn
  intro v v' hv hv' hlt
  obtain ⟨j, hj⟩ := List.mem_iff_getElem?.1 hv
  obtain ⟨j', hj'⟩ := List.mem_iff_getElem?.1 hv'
  calc v.change < v.group := (ha.each j v hj).between.2
    _ < v'.reading := hlt
    _ < v'.change := (ha.each j' v' hj').between.1

/-! ## Steps -/

/-- an event that is not a step of the call: a group that was built before is overtaken only by an undo or a redo -/
theorem Tried.snoc (ht : Tried w es place card p) (hkept : p.writesOrder →
      (new.run w (es ++ [e])).history.orderOf card = (new.run w es).history.orderOf card ∨
        Retraced w (es ++ [e]) card es.length) : Tried w (es ++ [e]) place card p := by
  cases p with
  | reading edit sequel attempt =>
    obtain ⟨hfew, vs, hlength, hall⟩ := ht
    exact ⟨hfew, vs, hlength, hall.append _⟩
  | writing edit sequel attempt c =>
    obtain ⟨hfew, vs, i, hlength, hall, hlater, hreads, horder⟩ := ht
    refine ⟨hfew, vs, i, hlength, hall.append _, hlater, hreads.append _, ?_⟩
    rcases horder with horder | ⟨u, hiu, hu⟩
    · rcases hkept rfl with hsame | hr
      · exact .inl (hsame.trans horder)
      · exact .inr ⟨es.length, hreads.step.lt, hr⟩
    · exact .inr ⟨u, hiu, hu.append _⟩
  | done r =>
    intro hstale
    obtain ⟨edit, sequel, vs, hlength, hall⟩ := ht hstale
    exact ⟨edit, sequel, vs, hlength, hall.append _⟩
  | _ => trivial

theorem tried_ok (a : CallAnswer) : Tried w es place card (.done (.ok a)) := by
  rintro ⟨id, hid⟩
  cases hid

theorem tried_composing (saved : List Block) (index : Nat) (drafts : List Committed) :
    Tried w es place card (.composing saved index drafts) := by
  cases drafts with
  | nil => exact tried_ok _
  | cons draft drafts => trivial

theorem tried_start (r : ContentRegistry) (k : Call) : Tried w es place card (.start r k) := by
  cases k with
  | add tag index =>
    simp only [Phase.start]
    split
    · trivial
    · rintro ⟨id, hid⟩
      cases hid
  | save draft index =>
    obtain ⟨_ | id, tag, value⟩ := draft <;> trivial
  | compose lines index => exact tried_composing _ _ _
  | _ => trivial

theorem tried_afterBlock (b : Block) (sequel : Sequel) : Tried w es place card (.afterBlock b sequel) := by
  cases sequel with
  | answer => exact tried_ok _
  | compose saved drafts index => exact tried_composing _ _ _

theorem tried_afterEdit (edit : OrderEdit) (sequel : Sequel) (order : List Uuid) :
    Tried w es place card (Task.afterEdit edit sequel order) := by
  cases edit with
  | insert b index => trivial
  | remove b | move id index => exact tried_ok _

/-- a group that finds another order than it was built from: the attempt was overtaken -/
theorem Tried.overtaken (ht : Tried w es place card (.writing edit sequel attempt c))
    (hstands : (new.run w es).Stands place card (.writing edit sequel attempt c)) (m : Ambient)
    (hchanged : ∃ c', (new.run w es).history.store.card? c.id = some c' ∧ c'.contentOrder ≠ c.contentOrder) :
    attempt ≤ orderRetries ∧
      ∃ vs, vs.length = attempt + 1 ∧ AllOvertaken w (es ++ [.step place m]) place card edit sequel vs := by
  obtain ⟨hfew, vs, i, rfl, hall, hlater, hreads, horder⟩ := ht
  obtain ⟨c', hc', ho⟩ := hchanged
  rw [Store.id_of_card? hreads.card] at hc'
  have hnow : (new.run w es).history.orderOf card ≠ c.contentOrder := by
    simpa only [History.orderOf, hc', Option.elim_some] using ho
  obtain ⟨u, hiu, hu⟩ := horder.resolve_left hnow
  have hmoment : moment w (es ++ [.step place m]) es.length = new.run w es := by
    rw [moment_append w _ (Nat.le_refl _), moment_length]
  refine ⟨hfew, vs ++ [⟨i, u, es.length⟩], by simp, (hall.append _).concat ?_ hlater⟩
  exact ⟨hu.append _, ⟨hiu, hu.lt⟩, stepsAt_last es place m, c, hreads.append _, hmoment.symm ▸ hstands,
    hmoment.symm ▸ hnow⟩

/-- **A step of the call** builds its attempts one after the other. -/
theorem Tried.acts {m : Ambient} {h' : History} {p' : Phase} (ht : Tried w es place card p)
    (hstands : (new.run w es).Stands place card p) (ha : Task.Acts m card (new.run w es).history p h' p')
    (hafter : (new.run w (es ++ [.step place m])).history = h') : Tried w (es ++ [.step place m]) place card p' := by
  cases ha with
  | quiet hn =>
    cases hn with
    | locked => exact ⟨Nat.zero_le _, [], rfl, ⟨fun j v hv => by simp at hv, .nil⟩⟩
    | @read edit sequel attempt c g hc _ =>
      obtain ⟨hfew, vs, hlength, hall⟩ := ht
      have hmoment : moment w (es ++ [.step place m]) es.length = new.run w es := by
        rw [moment_append w _ (Nat.le_refl _), moment_length]
      refine ⟨hfew, vs, es.length, hlength, hall.append _, fun v hv => hall.group_lt hv, ?_, .inl ?_⟩
      · exact ⟨stepsAt_last es place m, hmoment.symm ▸ hstands, hmoment.symm ▸ hc⟩
      · simp only [hafter, History.orderOf, hc, Option.elim_some]
    | again hg hcommit hstale hlt =>
      obtain ⟨-, hovertaken⟩ := ht.overtaken hstands m (OrderEdit.order_of_stale hg hcommit hstale)
      exact ⟨hlt, hovertaken⟩
    | failed hf =>
      rintro ⟨id, hid⟩
      cases hid
      obtain ⟨edit, sequel, attempt, c, group, order, rfl, hg, hcommit, hlast⟩ := Phase.stale_of_fails hf
      obtain ⟨hfew, hovertaken⟩ := ht.overtaken hstands m (OrderEdit.order_of_stale hg hcommit rfl)
      rw [Nat.le_antisymm hfew hlast] at hovertaken
      exact ⟨edit, sequel, hovertaken⟩
    | noted => exact tried_afterBlock _ _
    | ended => exact ht.snoc fun hwrites => by cases hwrites
    | _ => trivial
  | replaced _ => exact tried_ok _
  | edited _ _ => exact tried_afterEdit _ _ _

/-! ## Requests -/

/-- what the attempts of a request have met by a phase -/
def TriedFor (w : AppWorld) (es : List Event) (place : Nat) (c : Command) : RequestPhase → Prop
  | .call task _ => Tried w es place task.handle.card task.phase
  | .done (.failed x) => x.TellsStale → ∀ card purpose k, c.call? = some (card, purpose, k) →
    ∃ edit sequel vs, vs.length = orderRetries + 1 ∧ AllOvertaken w es place card edit sequel vs
  | _ => True

variable {command : Command} {q : RequestPhase} {task : Task} {purpose : Purpose} {m : Ambient}

theorem TriedFor.snoc (ht : TriedFor w es place command q) (hkept : ∀ task purpose, q = .call task purpose →
      task.phase.writesOrder →
        (new.run w (es ++ [e])).history.orderOf task.handle.card = (new.run w es).history.orderOf task.handle.card ∨
          Retraced w (es ++ [e]) task.handle.card es.length) : TriedFor w (es ++ [e]) place command q := by
  cases q with
  | call task purpose => exact Tried.snoc ht (hkept task purpose rfl)
  | done r =>
    cases r with
    | failed x =>
      intro hstale card purpose k hcall
      obtain ⟨edit, sequel, vs, hlength, hall⟩ := ht hstale card purpose k hcall
      exact ⟨edit, sequel, vs, hlength, hall.append _⟩
    | _ => trivial
  | _ => trivial

theorem triedFor_afterCall (ht : Tried w es place task.handle.card task.phase)
    (ho : ∃ k, command.call? = some (task.handle.card, purpose, k)) :
    TriedFor w es place command (RequestPhase.afterCall purpose task) := by
  unfold RequestPhase.afterCall
  split
  · rename_i r hr
    rw [Phase.eq_done_of_result? hr] at ht
    rcases r with x | a
    · intro hstale card purpose' k hcall
      obtain ⟨id, rfl⟩ := CallError.stale_of_tells hstale
      obtain ⟨k', hcall'⟩ := ho
      cases hcall.symm.trans hcall'
      exact ht ⟨id, rfl⟩
    · cases a <;> cases purpose <;> trivial
  · exact ht

/-- **A step of the request itself.** -/
theorem TriedFor.step (ht : TriedFor w es place command q) (hq : (new.run w es).requests[place]? = some ⟨command, q⟩)
    (ho : q.Of command) (hcalls : q.Calls command) :
    TriedFor w (es ++ [.step place m]) place command (q.step w m place (new.run w es).app).2 := by
  have hacts := RequestPhase.step_acts w m place (new.run w es).app q
  cases hcall : command.call? with
  | none =>
    -- such a request never has a content call
    have ho' := ho.acts hacts
    generalize (q.step w m place (new.run w es).app).2 = q' at ho'
    cases q' with
    | call task purpose =>
      obtain ⟨⟨k, hk⟩, -⟩ := ho'
      rw [hcall] at hk
      cases hk
    | done r =>
      cases r with
      | failed x =>
        intro hstale card purpose k hk
        rw [hcall] at hk
        cases hk
      | _ => trivial
    | _ => trivial
  | some made =>
    obtain ⟨card, purpose, k⟩ := made
    cases q with
    | start c =>
      obtain rfl : c = command := hcalls
      simp only [RequestPhase.step, RequestPhase.begin_of_call? hcall, RequestPhase.openCall]
      split
      · intro hstale
        obtain ⟨id, hid⟩ := CallError.stale_of_tells hstale
        cases hid
      · exact tried_start _ _
    | call task purpose' =>
      obtain ⟨htask, htaskActs⟩ := task.step_acts m (new.run w es).app.desk
      have hafter :
          (new.run w (es ++ [.step place m])).history = (task.step .plain m (new.run w es).app.desk).1.doc := by
        rw [run_snoc, history, (take_step w hq m).1]
        rfl
      have hnext := Tried.acts ht ⟨_, task, purpose', hq, rfl, rfl, rfl⟩ htaskActs hafter
      rw [RequestPhase.step_call, htask]
      exact triedFor_afterCall hnext ho.1
    | done r => exact TriedFor.snoc ht fun task purpose hp => by cases hp
    | _ =>
      have hnone : command.call? = none := hcalls
      rw [hcall] at hnone
      cases hnone

/-- while a call goes about under the lock, the order of its card changes by an undo or a redo only -/
theorem retraced_of_held (w : AppWorld) (hf : Fresh (es ++ [e])) {r : Asked}
    (hr : (new.run w es).requests[place]? = some r) (hp : r.phase = .call task purpose)
    (hwrites : task.phase.writesOrder) (hother : ∀ m, e ≠ .step place m) :
    (new.run w (es ++ [e])).history.orderOf task.handle.card = (new.run w es).history.orderOf task.handle.card ∨
      Retraced w (es ++ [e]) task.handle.card es.length := by
  have he : (es ++ [e])[es.length]? = some e := by simp
  have hnow : moment w (es ++ [e]) es.length = new.run w es := by
    rw [moment_append w _ (Nat.le_refl _), moment_length]
  have hnext : moment w (es ++ [e]) (es.length + 1) = new.run w (es ++ [e]) := by
    rw [← moment_length w (es ++ [e]), List.length_append, List.length_singleton]
  by_cases hsame : (new.run w (es ++ [e])).history.orderOf task.handle.card =
    (new.run w es).history.orderOf task.handle.card
  · exact .inl hsame
  · rw [← hnow, ← hnext] at hsame
    obtain ⟨other, m, q, rfl, hq, hwriter⟩ := order_moment w hf he hsame
    rcases hwriter with hretraces | ⟨task', purpose', hp', hcard, hwrites'⟩
    · exact .inr ⟨other, m, q, he, hq, hretraces, hsame⟩
    · -- the other call would have to be under the same lock
      rw [hnow] at hq
      have hplace : place = other :=
        (locked_run w es).unique hr hq hp hp' hcard.symm (Phase.holdsLock_of_writesOrder hwrites)
        (Phase.holdsLock_of_writesOrder hwrites')
      exact absurd (hplace ▸ rfl) (hother m)

theorem calls_run (w : AppWorld) (es : List Event) : ∀ q ∈ (new.run w es).requests, q.phase.Calls q.command :=
  (run_keeps (A := fun _ => True) (I := RequestPhase.Calls) trivial (fun _ => rfl)
    (fun m place a _ p _ hp => ⟨trivial, hp.acts (RequestPhase.step_acts w m place a p)⟩) es).2

/-- **Attempts and what overtakes them.** In every run, whatever a request has given up on the way was overtaken by undo
and redo alone. -/
theorem tried_run (w : AppWorld) (hf : Fresh es) {r : Asked} (hr : (new.run w es).requests[place]? = some r) :
    TriedFor w es place r.command r.phase := by
  induction es using List.reverseRecOn generalizing place r with
  | nil => simp [run, new] at hr
  | append_singleton es e ih =>
    rw [run_snoc] at hr
    rcases requests_take hr with ⟨hr, hother⟩ | ⟨c, rfl, rfl⟩ | ⟨m, q, rfl, hq, rfl⟩
    · exact (ih hf.left hr).snoc fun task purpose hp hwrites => retraced_of_held w hf hr hp hwrites hother
    · trivial
    · have hmem := List.mem_of_getElem? hq
      exact (ih hf.left hq).step hq (own_run w es q hmem) (calls_run w es q hmem)

theorem arrived_run {r : Asked} (hr : (new.run w es).requests[place]? = some r) : .arrive r.command ∈ es := by
  induction es using List.reverseRecOn generalizing place r with
  | nil => simp [run, new] at hr
  | append_singleton es e ih =>
    rw [run_snoc] at hr
    rcases requests_take hr with ⟨hr, -⟩ | ⟨c, rfl, rfl⟩ | ⟨m, q, rfl, hq, rfl⟩
    · exact List.mem_append_left _ (ih hr)
    · simp
    · have harrived : .arrive q.command ∈ es := ih hq
      exact List.mem_append_left _ harrived

theorem Retraced.arrived (hr : Retraced w es card n) : .arrive .undo ∈ es ∨ .arrive .redo ∈ es := by
  obtain ⟨other, m, q, -, hq, hretraces, -⟩ := hr
  have harrived : .arrive q.command ∈ es := List.mem_of_mem_take (arrived_run hq)
  have ho : q.phase.Of q.command := own_run w (es.take n) q (List.mem_of_getElem? hq)
  obtain ⟨command, phase⟩ := q
  generalize (phase.step w m other (moment w es n).app).2 = phase' at hretraces
  cases hretraces with
  | undo =>
    obtain rfl : .undo = command := ho
    exact .inl harrived
  | redo =>
    obtain rfl : .redo = command := ho
    exact .inr harrived

/-- **Edits return, and only undo and redo make them fail as stale.** All who open a card get one handle. Whatever
others do between the steps of a call, it applies four groups at most for an edit and leaves the lock, and it fails as
stale only if each of the four found another order than it was built from. In a run of requests each of these orders was
changed by another step of an undo or a redo, between the reading and the group; so without them no content request
fails as stale, however many there are. -/
theorem stale_by_retracing_only (w : AppWorld) :
    (∀ (es : List Openings.Event) (card : Uuid) (h : Handle),
      (card, .opened h) ∈ (Openings.new.run es).asked → h = ⟨card, 0⟩) ∧
    (∀ (finds : Nat → Ambient × Desk History) (t : Task) (edit : OrderEdit) (sequel : Sequel),
      t.phase = .reading edit sequel 0 → ∃ last steps, t.Returns finds edit sequel last steps) ∧
    (∀ (es : List Event), Fresh es → ∀ (place : Nat) (q : Asked) (card : Uuid) (purpose : Purpose) (k : Call)
      (x : ApiError), (new.run w es).requests[place]? = some q → q.command.call? = some (card, purpose, k) →
        q.phase = .fail x → x.TellsStale → ∃ edit sequel vs, vs.length = orderRetries + 1 ∧
          AllOvertaken w es place card edit sequel vs ∧ (vs.map (·.change)).Nodup) ∧
    ∀ (es : List Event), Fresh es → .arrive .undo ∉ es → .arrive .redo ∉ es → ∀ q ∈ (new.run w es).requests,
      q.command.call?.isSome → ∀ x, q.phase = .fail x → ¬ x.TellsStale := by
  have hstale : ∀ (es : List Event), Fresh es → ∀ (place : Nat) (q : Asked) (card : Uuid) (purpose : Purpose) (k : Call)
      (x : ApiError), (new.run w es).requests[place]? = some q → q.command.call? = some (card, purpose, k) →
        q.phase = .fail x → x.TellsStale → ∃ edit sequel vs, vs.length = orderRetries + 1 ∧
          AllOvertaken w es place card edit sequel vs ∧ (vs.map (·.change)).Nodup := by
    intro es hf place q card purpose k x hq hcall hp hx
    have ht := tried_run w hf hq
    rw [hp] at ht
    obtain ⟨edit, sequel, vs, hlength, hall⟩ := ht hx card purpose k hcall
    exact ⟨edit, sequel, vs, hlength, hall, hall.changes.imp Nat.ne_of_lt⟩
  refine ⟨fun es card h => Openings.one_handle es, fun finds t edit sequel => Task.edit_returns finds, hstale, ?_⟩
  intro es hf hundo hredo q hq hcall x hp hx
  obtain ⟨place, hplace⟩ := List.mem_iff_getElem?.1 hq
  obtain ⟨⟨card, purpose, k⟩, hmade⟩ := Option.isSome_iff_exists.1 hcall
  obtain ⟨edit, sequel, vs, hlength, hall, -⟩ := hstale es hf place q card purpose k x hplace hmade hp hx
  obtain ⟨v, hv⟩ : ∃ v, vs[0]? = some v := ⟨vs[0], List.getElem?_eq_getElem (by rw [hlength]; exact Nat.succ_pos _)⟩
  rcases (hall.each 0 v hv).retraced.arrived with h | h
  · exact hundo h
  · exact hredo h

/-- a card, and a block that is to be deleted and is not there -/
def mistaken : List Event :=
  [.arrive (.createCard none none), .step 0 ⟨0, ⟨1⟩, ⟨900⟩⟩, .arrive (.deleteContent ⟨1⟩ ⟨7⟩), .step 1 ⟨1, ⟨2⟩, .nil⟩,
    .step 1 ⟨2, ⟨3⟩, .nil⟩]

/-- a card with one entry that others replace between any two steps of a call -/
def shifting (k : Nat) : Ambient × Desk History :=
  (⟨0, ⟨9⟩, .nil⟩, .new (History.empty.insertCard
    { Card.fresh ⟨1⟩ ⟨900⟩ "Shifting" with contentOrder := if k % 2 = 0 then [⟨2⟩] else [⟨3⟩] }))

theorem interrupted_by_four :
    (∃ last steps,
      Task.Returns shifting ⟨⟨⟨1⟩, 0⟩, 0, .reading (.move ⟨2⟩ 0) .answer 0⟩ (.move ⟨2⟩ 0) .answer last steps) ∧
    (Task.onward shifting ⟨⟨⟨1⟩, 0⟩, 0, .reading (.move ⟨2⟩ 0) .answer 0⟩ 8).phase.EndsStale ∧
    Fresh interrupted ∧
    (∃ q x, (new.run (.ofConfig .default) interrupted).requests[1]? = some q ∧ q.phase = .fail x ∧ x.TellsStale ∧
      ∃ edit sequel vs, vs.length = orderRetries + 1 ∧
        AllOvertaken (.ofConfig .default) interrupted 1 ⟨1⟩ edit sequel vs ∧ (vs.map (·.change)).Nodup) ∧
    Fresh mistaken ∧ ∃ q ∈ (new.run (.ofConfig .default) mistaken).requests, ∃ x, q.phase = .fail x ∧
      ¬ x.TellsStale := by
  obtain ⟨-, hreturns, hstale, hnever⟩ := stale_by_retracing_only (.ofConfig .default)
  have hf : Fresh interrupted := by decide
  have hf' : Fresh mistaken := by decide
  have hq : (new.run (.ofConfig .default) interrupted).requests[1]? = some ⟨.compose ⟨1⟩ ["one", "two"] none,
      .fail (.ofCall (.history (.store (.staleOrder ⟨1⟩))))⟩ := rfl
  have hq' : (new.run (.ofConfig .default) mistaken).requests[1]? = some ⟨.deleteContent ⟨1⟩ ⟨7⟩,
      .fail (.ofCall (.blockNotFound ⟨7⟩))⟩ := rfl
  have hundo : (.arrive .undo : Event) ∉ mistaken := by simp [mistaken]
  have hredo : (.arrive .redo : Event) ∉ mistaken := by simp [mistaken]
  refine ⟨hreturns shifting _ _ _ rfl, ⟨⟨1⟩, rfl⟩, hf, ?_, hf', ?_⟩
  · exact ⟨_, _, hq, rfl, rfl, hstale interrupted hf 1 _ ⟨1⟩ _ _ _ hq rfl rfl rfl⟩
  · exact ⟨_, List.mem_of_getElem? hq', _, rfl,
      hnever mistaken hf' hundo hredo _ (List.mem_of_getElem? hq') rfl _ rfl⟩

end Traffic

end Corkboard
