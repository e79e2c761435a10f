/-
What a request for a card has read, and when.

A moment of a run is the interface after some of its events. A request for a card reads the card, then its body, then
the templates, each in a step of its own, and others take their steps in between. So its answer is put together from
three moments: `dated_run` says which, for every run.
-/
import Corkboard.Proofs.Api.Frames
import Corkboard.Proofs.Places
import Mathlib.Data.List.Induction

namespace Corkboard

namespace Traffic

variable {w : AppWorld} {t : Traffic} {es es' : List Event} {e : Event} {place n : Nat}

/-! ## Runs and their beginnings -/

theorem run_append (w : AppWorld) (t : Traffic) (es es' : List Event) : t.run w (es ++ es') = (t.run w es).run w es' :=
  List.foldl_append

theorem run_snoc (w : AppWorld) (t : Traffic) (es : List Event) (e : Event) :
    t.run w (es ++ [e]) = (t.run w es).take w e := run_append w t es [e]

/-- what holds of a new interface and of requests that arrive, and is kept by every step, holds in every run -/
theorem run_keeps {A : App → Prop} {I : Command → RequestPhase → Prop} (hnew : A .new) (hstart : ∀ c, I c (.start c))
    (hstep : ∀ m place a c p, A a → I c p →
      A (RequestPhase.step w m place a p).1 ∧ I c (RequestPhase.step w m place a p).2) (es : List Event) :
    A (new.run w es).app ∧ ∀ q ∈ (new.run w es).requests, I q.command q.phase := by
  induction es using List.reverseRecOn with
  | nil => exact ⟨hnew, by simp [run, new]⟩
  | append_singleton es e ih =>
    obtain ⟨happ, hrequests⟩ := ih
    rw [run_snoc]
    cases e with
    | arrive c =>
      refine ⟨happ, fun q hq => ?_⟩
      rcases List.mem_append.1 hq with hq | hq
      · exact hrequests q hq
      · obtain rfl := List.mem_singleton.1 hq
        exact hstart c
    | step place m =>
      cases hr : (new.run w es).requests[place]? with
      | none =>
        simp only [take, hr]
        exact ⟨happ, hrequests⟩
      | some r =>
        obtain ⟨happ', hphase'⟩ := hstep m place _ _ _ happ (hrequests r (List.mem_of_getElem? hr))
        rw [(take_step w hr m).1, (take_step w hr m).2]
        refine ⟨happ', fun q hq => ?_⟩
        rcases List.mem_or_eq_of_mem_set hq with hq | rfl
        · exact hrequests q hq
        · exact hphase'

theorem Fresh.left (hf : Fresh (es ++ es')) : Fresh es :=
  hf.sublist ((List.sublist_append_left es es').filterMap _)

theorem Fresh.take (hf : Fresh es) (n : Nat) : Fresh (es.take n) := by
  rw [← List.take_append_drop n es] at hf
  exact hf.left

/-- the interface after the first events of a run -/
def moment (w : AppWorld) (es : List Event) (n : Nat) : Traffic := new.run w (es.take n)

/-- an event of a run is a step of the request at a place -/
def StepsAt (es : List Event) (place n : Nat) : Prop := ∃ m, es[n]? = some (.step place m)

theorem moment_length (w : AppWorld) (es : List Event) : moment w es es.length = new.run w es := by
  rw [moment, List.take_length]

theorem moment_append (w : AppWorld) (es' : List Event) (hn : n ≤ es.length) :
    moment w (es ++ es') n = moment w es n := by
  rw [moment, moment, List.take_append_of_le_length hn]

theorem moment_succ (w : AppWorld) (he : es[n]? = some e) : moment w es (n + 1) = (moment w es n).take w e := by
  rw [moment, moment, List.take_add_one, he]
  exact run_snoc w new (es.take n) e

theorem run_moment (w : AppWorld) (es : List Event) (n : Nat) : (moment w es n).run w (es.drop n) = new.run w es := by
  rw [moment, ← run_append, List.take_append_drop]

theorem own_run (w : AppWorld) (es : List Event) : (new.run w es).Own := Own.run (by simp [Own, new]) es

/-- where a request stands after an event: where it stood, at its arrival, or one step of its own further -/
theorem requests_take {r : Asked} (hr : (t.take w e).requests[place]? = some r) :
    (t.requests[place]? = some r ∧ ∀ m, e ≠ .step place m) ∨ (∃ c, e = .arrive c ∧ r = ⟨c, .start c⟩) ∨
      ∃ m q, e = .step place m ∧ t.requests[place]? = some q ∧
        r = { q with phase := (q.phase.step w m place t.app).2 } := by
  cases e with
  | arrive c =>
    simp only [take] at hr
    rcases Places.getElem?_concat_eq_some_iff.1 hr with hr | ⟨-, rfl⟩
    · exact .inl ⟨hr, fun m he => by cases he⟩
    · exact .inr (.inl ⟨c, rfl, rfl⟩)
  | step other m =>
    cases hq : t.requests[other]? with
    | none =>
      simp only [take, hq] at hr
      refine .inl ⟨hr, fun m' he => ?_⟩
      cases he
      rw [hq] at hr
      cases hr
    | some q =>
      rw [(take_step w hq m).2, Places.getElem?_set_eq_some_iff (List.getElem?_eq_some_iff.1 hq).1] at hr
      rcases hr with ⟨rfl, rfl⟩ | ⟨hne, hr⟩
      · exact .inr (.inr ⟨m, q, rfl, hq, rfl⟩)
      · refine .inl ⟨hr, fun m' he => ?_⟩
        cases he
        exact hne rfl

theorem command_run {r : Asked} (hr : t.requests[place]? = some r) (es : List Event) :
    ∃ q, (t.run w es).requests[place]? = some q ∧ q.command = r.command := by
  induction es generalizing t r with
  | nil => exact ⟨r, hr, rfl⟩
  | cons e es ih =>
    obtain ⟨r', hr', hc⟩ : ∃ r', (t.take w e).requests[place]? = some r' ∧ r'.command = r.command := by
      cases e with
      | arrive c => exact ⟨r, by rw [take, List.getElem?_append_left (List.getElem?_eq_some_iff.1 hr).1, hr], rfl⟩
      | step other m =>
        cases hq : t.requests[other]? with
        | none => exact ⟨r, by simp only [take, hq, hr], rfl⟩
        | some q =>
          by_cases hother : other = place
          · subst hother
            cases hr.symm.trans hq
            exact ⟨_, getElem?_take_step w hq m, rfl⟩
          · exact ⟨r, by rw [(take_step w hq m).2, List.getElem?_set_ne hother, hr], rfl⟩
    obtain ⟨q, hq, hcq⟩ := ih hr'
    exact ⟨q, hq, hcq.trans hc⟩

theorem command_moment {q r : Asked} (hq : (new.run w es).requests[place]? = some q)
    (hr : (moment w es n).requests[place]? = some r) : r.command = q.command := by
  obtain ⟨q', hq', hc⟩ := command_run (w := w) hr (es.drop n)
  rw [run_moment, hq] at hq'
  cases hq'
  exact hc.symm

theorem StepsAt.lt (hs : StepsAt es place n) : n < es.length := by
  obtain ⟨m, hm⟩ := hs
  exact (List.getElem?_eq_some_iff.1 hm).1

theorem StepsAt.append (hs : StepsAt es place n) (es' : List Event) : StepsAt (es ++ es') place n := by
  obtain ⟨m, hm⟩ := hs
  exact ⟨m, by rw [List.getElem?_append_left (List.getElem?_eq_some_iff.1 hm).1, hm]⟩

theorem stepsAt_last (es : List Event) (place : Nat) (m : Ambient) : StepsAt (es ++ [.step place m]) place es.length :=
  ⟨m, by simp⟩

/-! ## Readings of a card -/

/-- the request at a place read the card at the moment -/
structure ReadsCard (w : AppWorld) (es : List Event) (place : Nat) (c : Card) (i : Nat) : Prop where
  step : StepsAt es place i
  card : (moment w es i).app.store.card? c.id = some c

/-- the request at a place read the card, and its body at a later moment -/
structure ReadsBody (w : AppWorld) (es : List Event) (place : Nat) (c : Card) (contents : List RenderedBlock)
    (i j : Nat) : Prop
    extends ReadsCard w es place c i where
  later : i < j
  bodyStep : StepsAt es place j
  body : contents = Gallery.renderContents w.content (moment w es j).app.store c.id

/-- the request at a place read the card, then its body, then its properties under the templates of that moment -/
structure ReadsAll (w : AppWorld) (es : List Event) (place : Nat) (c : Card) (contents : List RenderedBlock)
    (properties : List RenderedProperty) (i j k : Nat) : Prop extends ReadsBody w es place c contents i j where
  last : j < k
  propertiesStep : StepsAt es place k
  properties : properties = Gallery.renderProperties w.properties (moment w es k).app.board c

section Growth

variable {c : Card} {contents : List RenderedBlock} {properties : List RenderedProperty} {i j k : Nat}

theorem ReadsCard.append (hr : ReadsCard w es place c i) (es' : List Event) : ReadsCard w (es ++ es') place c i :=
  ⟨hr.step.append es', by rw [moment_append w es' (Nat.le_of_lt hr.step.lt)]; exact hr.card⟩

theorem ReadsBody.append (hr : ReadsBody w es place c contents i j) (es' : List Event) :
    ReadsBody w (es ++ es') place c contents i j :=
  ⟨hr.toReadsCard.append es', hr.later, hr.bodyStep.append es', by
    rw [moment_append w es' (Nat.le_of_lt hr.bodyStep.lt)]; exact hr.body⟩

theorem ReadsAll.append (hr : ReadsAll w es place c contents properties i j k) (es' : List Event) :
    ReadsAll w (es ++ es') place c contents properties i j k :=
  ⟨hr.toReadsBody.append es', hr.last, hr.propertiesStep.append es', by
    rw [moment_append w es' (Nat.le_of_lt hr.propertiesStep.lt)]; exact hr.properties⟩

end Growth

end Traffic

open Traffic

/-- what a request for a card carries and answers was read at moments of the run -/
def Asked.Dated (w : AppWorld) (es : List Event) (place : Nat) (q : Asked) : Prop :=
  match q.phase with
  | .start c => c = q.command
  | .showBody c => q.command = .getCard c.id ∧ ∃ i, ReadsCard w es place c i
  | .showProperties c contents => q.command = .getCard c.id ∧ ∃ i j, ReadsBody w es place c contents i j
  | .done (.shownCard c contents properties) =>
    q.command = .getCard c.id ∧ ∃ i j k, ReadsAll w es place c contents properties i j k
  | _ => True

namespace RequestPhase

variable {w : AppWorld} {es : List Event} {place : Nat} {c : Command} {p : RequestPhase}

/-- a phase that neither carries nor answers what was read of a card -/
def Dateless : RequestPhase → Prop
  | start _ | showBody _ | showProperties _ _ | done (.shownCard _ _ _) => False
  | _ => True

theorem Dateless.dated (hp : p.Dateless) : Asked.Dated w es place ⟨c, p⟩ := by
  cases p with
  | done r => cases r <;> trivial
  | start | showBody | showProperties => exact hp.elim
  | _ => trivial

theorem dateless_afterCall (purpose : Purpose) (t : Task) : (afterCall purpose t).Dateless := by
  unfold afterCall
  split
  · rename_i r hr
    rcases r with e | (b | bs | ids)
    · trivial
    · cases purpose <;> trivial
    · trivial
    · trivial
  · trivial

theorem dateless_openCall (w : AppWorld) (a : App) (name : Nat) (card : Uuid) (purpose : Purpose) (k : Call) :
    (openCall w a name card purpose k).Dateless := by
  unfold openCall
  split <;> trivial

theorem dateless_begin (w : AppWorld) (m : Ambient) (name : Nat) (a : App) {c : Command}
    (hc : ∀ card, c ≠ .getCard card) :
    (begin w m name a c).2.Dateless := by
  cases c with
  | getCard card => exact absurd rfl (hc card)
  | addContent | compose | updateContent | deleteContent | moveContent => exact dateless_openCall _ _ _ _ _ _
  | putTemplate | calculate | previewCard | setProperty =>
    simp only [begin]
    split <;> trivial
  | undo | redo =>
    simp only [begin, ofHistory]
    split <;> trivial
  | _ => trivial

theorem dateless_step (w : AppWorld) (m : Ambient) (name : Nat) (a : App) (hp : p.Dateless) :
    (p.step w m name a).2.Dateless := by
  cases p with
  | start | showBody | showProperties => exact hp.elim
  | call t purpose => exact dateless_afterCall _ _
  | search text q =>
    simp only [step]
    split <;> trivial
  | showPreview x => trivial
  | compute | parseInput | writeProperty | readBack =>
    simp only [step]
    split <;> trivial
  | done r => exact hp

end RequestPhase

namespace Traffic

variable {w : AppWorld} {es : List Event} {place : Nat} {q : Asked}

theorem Dated.append (hd : q.Dated w es place) (es' : List Event) : q.Dated w (es ++ es') place := by
  obtain ⟨c, p⟩ := q
  cases p with
  | start c' => exact hd
  | showBody x =>
    obtain ⟨hc, i, hr⟩ := hd
    exact ⟨hc, i, hr.append es'⟩
  | showProperties x contents =>
    obtain ⟨hc, i, j, hr⟩ := hd
    exact ⟨hc, i, j, hr.append es'⟩
  | done r =>
    cases r with
    | shownCard x contents properties =>
      obtain ⟨hc, i, j, k, hr⟩ := hd
      exact ⟨hc, i, j, k, hr.append es'⟩
    | _ => trivial
  | _ => trivial

/-- **One step of a request** reads at the moment of the step. -/
theorem Dated.step (hd : q.Dated w es place) (m : Ambient) :
    Asked.Dated w (es ++ [.step place m]) place
      { q with phase := (q.phase.step w m place (new.run w es).app).2 } := by
  have hlast := stepsAt_last es place m
  have hnow : moment w (es ++ [.step place m]) es.length = new.run w es := by
    rw [moment_append w _ (Nat.le_refl _), moment_length]
  obtain ⟨c, p⟩ := q
  cases p with
  | start c' =>
    obtain rfl : c' = c := hd
    by_cases hc : ∃ card, c' = .getCard card
    · obtain ⟨card, rfl⟩ := hc
      simp only [RequestPhase.step, RequestPhase.begin]
      cases hx : (new.run w es).app.store.card? card with
      | none => trivial
      | some x =>
        obtain rfl := Store.id_of_card? hx
        exact ⟨rfl, es.length, hlast, by rw [hnow]; exact hx⟩
    · exact (RequestPhase.dateless_begin w m place _ fun card he => hc ⟨card, he⟩).dated
  | showBody x =>
    obtain ⟨hc, i, hr⟩ := hd
    exact ⟨hc, i, es.length, hr.append _, hr.step.lt, hlast, by rw [hnow]⟩
  | showProperties x contents =>
    obtain ⟨hc, i, j, hr⟩ := hd
    exact ⟨hc, i, j, es.length, hr.append _, hr.bodyStep.lt, hlast, by rw [hnow]⟩
  | done r => exact Dated.append hd _
  | _ => exact (RequestPhase.dateless_step w m place _ (by trivial)).dated

/-- **What requests for cards have read.** In every run, each of them carries and answers what was there at moments of
the run, at which it took its own steps. -/
theorem dated_run (w : AppWorld) (es : List Event) (hq : (new.run w es).requests[place]? = some q) :
    q.Dated w es place := by
  induction es using List.reverseRecOn generalizing q with
  | nil => simp [run, new] at hq
  | append_singleton es e ih =>
    rw [run_snoc] at hq
    rcases requests_take hq with ⟨hq, -⟩ | ⟨c, rfl, rfl⟩ | ⟨m, r, rfl, hr, rfl⟩
    · exact Dated.append (ih hq) _
    · rfl
    · exact Dated.step (ih hr) m

end Traffic

end Corkboard
