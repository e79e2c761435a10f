/-
What one step of a request does to the document.

A request touches the history in six ways: a step of its content call, an undo, a redo, a new card, the write of a
property, or not at all. `RequestPhase.step_acts` says so once, with what the request has read by then, and the log of
the traffic follows from it (`deed?_calm` and its likes). Templates and people change in two ways (`board_step`).
-/
import Corkboard.Api.Traffic
import Corkboard.Proofs.Desk.Step

namespace Corkboard

namespace Command

/-- the content call that a request makes: its card, what it is for, and the call -/
def call? : Command → Option (Uuid × Purpose × Call)
  | addContent card tag index => some (card, .adding, .add tag (index.getD RequestPhase.atEnd))
  | compose card lines index => some (card, .adding, .compose lines (index.getD RequestPhase.atEnd))
  | updateContent card block value => some (card, .changing, .updateValue block value)
  | deleteContent card block => some (card, .deleting, .delete block)
  | moveContent card block index => some (card, .changing, .move block index)
  | _ => none

def Changes : Command → Prop
  | undo | redo | createCard _ _ | setProperty _ _ _ => True
  | c => c.call?.isSome

end Command

theorem Phase.eq_done_of_result? {p : Phase} {r : Except CallError CallAnswer} (hr : p.result? = some r) :
    p = .done r := by
  cases p with
  | done r' => exact congrArg Phase.done (Option.some.inj hr)
  | _ => cases hr

namespace RequestPhase

def Reads : RequestPhase → Prop
  | search _ _ | showBody _ | showProperties _ _ | showPreview _ | compute _ _ => True
  | _ => False

/-- a step that leaves the document alone, and what the request has read by then -/
inductive Calm (h : History) : RequestPhase → RequestPhase → Prop
  | failed {p e} : p.reply? = none → Calm h p (.fail e)
  | answered {c reply} : ¬ c.Changes → Calm h (.start c) (.done reply)
  | began {c p} : ¬ c.Changes → p.Reads → Calm h (.start c) p
  | went {p p'} : p.Reads → p'.Reads ∨ p'.reply?.isSome → Calm h p p'
  | opened {c card purpose k r name} : c.call? = some (card, purpose, k) → (h.store.card? card).isSome →
    Calm h (.start c) (.call ⟨⟨card, 0⟩, name, .start r k⟩ purpose)
  | asked {card templateId value c} : h.store.card? card = some c →
    Calm h (.start (.setProperty card templateId value)) (.parseInput c templateId value)
  | parsed {c templateId value v} : Calm h (.parseInput c templateId value) (.writeProperty c templateId v)
  | readAgain {card c} : h.store.card? card = some c → Calm h (.readBack card) (.done (.card c))
  | ended {reply} : Calm h (.done reply) (.done reply)

/-- the history and the phase of a request, before and after one step -/
inductive Acts (m : Ambient) (h : History) : RequestPhase → History → RequestPhase → Prop
  | calm {p p'} : Calm h p p' → Acts m h p h p'
  | called {t purpose h' p'} : Task.Acts m t.handle.card h t.phase h' p' →
    Acts m h (.call t purpose) h' (afterCall purpose { t with phase := p' })
  | undone {h' description} : h.undo m.now = .ok (h', description) →
    Acts m h (.start .undo) h' (.done (.history description))
  | redone {h' description} : h.redo m.now = .ok (h', description) →
    Acts m h (.start .redo) h' (.done (.history description))
  | created {title rootId} : Acts m h (.start (.createCard title rootId))
    (h.insertCard (.fresh m.id (rootId.getD m.rootId) (title.getD "Untitled")))
    (.done (.newCard (.fresh m.id (rootId.getD m.rootId) (title.getD "Untitled"))))
  | wrote {c templateId v h'} :
    h.commit m.now [⟨.setProperty c.id templateId (c.property? templateId) v, "edit property"⟩] = .ok h' →
    Acts m h (.writeProperty c templateId v) h' (.readBack c.id)

variable {w : AppWorld} {m : Ambient} {name : Nat} {a : App}

theorem openCall_calm {c : Command} {card : Uuid} {purpose : Purpose} {k : Call}
    (hc : c.call? = some (card, purpose, k)) :
    Calm a.desk.doc (.start c) (openCall w a name card purpose k) := by
  unfold openCall
  cases hcard : a.store.card? card with
  | none => exact .failed rfl
  | some x => exact .opened hc (Option.isSome_of_eq_some hcard)

theorem begin_acts (c : Command) :
    Acts m a.desk.doc (.start c) (begin w m name a c).1.desk.doc (begin w m name a c).2 := by
  cases c with
  | health => exact .calm (.answered nofun)
  | contentTypes => exact .calm (.answered nofun)
  | propertyTypes => exact .calm (.answered nofun)
  | listTemplates => exact .calm (.answered nofun)
  | putTemplate t =>
    simp only [begin]
    split
    · exact .calm (.answered nofun)
    · exact .calm (.failed rfl)
  | calculate id k =>
    simp only [begin]
    split
    · exact .calm (.began nofun trivial)
    · exact .calm (.failed rfl)
  | putMember id name => exact .calm (.answered nofun)
  | search text => exact .calm (.began nofun trivial)
  | undo =>
    simp only [begin]
    cases hu : a.desk.doc.undo m.now with
    | ok r => exact .undone hu
    | error e => exact .calm (.failed rfl)
  | redo =>
    simp only [begin]
    cases hr : a.desk.doc.redo m.now with
    | ok r => exact .redone hr
    | error e => exact .calm (.failed rfl)
  | listCards => exact .calm (.answered nofun)
  | createCard title rootId => exact .created
  | getCard card =>
    simp only [begin]
    split
    · exact .calm (.began nofun trivial)
    · exact .calm (.failed rfl)
  | previewCard card =>
    simp only [begin]
    split
    · exact .calm (.began nofun trivial)
    · exact .calm (.failed rfl)
  | addContent card tag index => exact .calm (openCall_calm rfl)
  | compose card lines index => exact .calm (openCall_calm rfl)
  | updateContent card block value => exact .calm (openCall_calm rfl)
  | deleteContent card block => exact .calm (openCall_calm rfl)
  | moveContent card block index => exact .calm (openCall_calm rfl)
  | setProperty card templateId value =>
    simp only [begin]
    split
    · rename_i hc
      exact .calm (.asked hc)
    · exact .calm (.failed rfl)

/-- **What a step does.** The history and the phase of a request change as `Acts` says. -/
theorem step_acts (w : AppWorld) (m : Ambient) (name : Nat) (a : App) (p : RequestPhase) :
    Acts m a.desk.doc p (p.step w m name a).1.desk.doc (p.step w m name a).2 := by
  cases p with
  | start c => exact begin_acts c
  | call t purpose =>
    obtain ⟨htask, hacts⟩ := t.step_acts m a.desk
    have hphase : (step w m name a (.call t purpose)).2 = afterCall purpose (t.step .plain m a.desk).2 := rfl
    rw [hphase, htask]
    exact .called hacts
  | search text p =>
    refine .calm (.went trivial ?_)
    simp only [step]
    split
    · exact .inr rfl
    · exact .inr rfl
    · exact .inl trivial
  | showBody c => exact .calm (.went trivial (.inl trivial))
  | showProperties c contents => exact .calm (.went trivial (.inr rfl))
  | showPreview c => exact .calm (.went trivial (.inr rfl))
  | compute t c =>
    simp only [step]
    split
    · exact .calm (.went trivial (.inr rfl))
    · exact .calm (.failed rfl)
  | parseInput c templateId value =>
    simp only [step]
    split
    · exact .calm .parsed
    · exact .calm (.failed rfl)
  | writeProperty c templateId v =>
    simp only [step]
    split
    · rename_i hc
      exact .wrote hc
    · exact .calm (.failed rfl)
  | readBack card =>
    simp only [step]
    split
    · rename_i hc
      exact .calm (.readAgain hc)
    · exact .calm (.failed rfl)
  | done reply => exact .calm .ended

/-- **What a step does to templates and people**: nothing, or what the request puts in. -/
theorem board_step (w : AppWorld) (m : Ambient) (name : Nat) (a : App) (p : RequestPhase) :
    (p.step w m name a).1.board = a.board ∨
    (∃ t, p = start (.putTemplate t) ∧ (p.step w m name a).1.board = a.board.putTemplate t) ∨
    ∃ id person, p = start (.putMember id person) ∧ (p.step w m name a).1.board = a.board.putMember id person := by
  cases p with
  | start c =>
    cases c with
    | putTemplate t =>
      simp only [step, begin]
      split
      · exact .inr (.inl ⟨t, rfl, rfl⟩)
      · exact .inl rfl
    | putMember id person => exact .inr (.inr ⟨id, person, rfl, rfl⟩)
    | undo | redo =>
      simp only [step, begin, ofHistory]
      split <;> exact .inl rfl
    | calculate | getCard | previewCard | setProperty =>
      simp only [step, begin]
      split <;> exact .inl rfl
    | _ => exact .inl rfl
  | compute | parseInput | writeProperty | readBack =>
    simp only [step]
    split <;> exact .inl rfl
  | _ => exact .inl rfl

/-! ## Ends of content calls -/

section Ends

variable {purpose purpose' : Purpose} {t t' : Task} {r : Reply}

theorem afterCall_eq_call (h : afterCall purpose t = .call t' purpose') :
    t' = t ∧ purpose' = purpose ∧ t.phase.result? = none := by
  unfold afterCall at h
  split at h
  · cases h
  · rename_i hr
    cases h
    exact ⟨rfl, rfl, hr⟩

theorem afterCall_eq_done (h : afterCall purpose t = .done r) : ∃ x, t.phase = .done x ∧ r = ofResult purpose x := by
  unfold afterCall at h
  split at h
  · rename_i x hx
    cases h
    exact ⟨x, Phase.eq_done_of_result? hx, rfl⟩
  · cases h

theorem step_call (w : AppWorld) (m : Ambient) (name : Nat) (a : App) :
    (step w m name a (.call t purpose)).2 = afterCall purpose (t.step .plain m a.desk).2 := rfl

theorem ofResult_eq_failed {x : ApiError} {y : Except CallError CallAnswer} (h : ofResult purpose y = .failed x) :
    ∃ z, y = .error z ∧ x = .ofCall z := by
  rcases y with z | (b | bs | ids)
  · cases h
    exact ⟨z, rfl, rfl⟩
  · cases purpose <;> cases h
  · cases h
  · cases h

end Ends

/-! ## Deeds -/

section Deeds

variable {h h' : History} {p p' : RequestPhase} {t : Task} {purpose : Purpose} {q : Phase}

theorem deed?_of_not_writes (s : Store) (hw : p.writes = false) (hc : ∀ c, p = .start c → ¬ c.Changes) :
    deed? s p p' = none := by
  cases p with
  | start c => cases c <;> first | rfl | exact (hc _ rfl trivial).elim
  | _ => simp [deed?, hw]

theorem deed?_turnedBack (s : Store) (hb : p'.turnedBack = true) : deed? s p p' = none := by
  cases p with
  | start c =>
    cases c with
    | undo | redo | createCard => cases p' <;> first | rfl | (rename_i r; cases r <;> first | rfl | cases hb)
    | _ => rfl
  | _ => simp [deed?, hb]

theorem writes_of_reads (hr : p.Reads) : p.writes = false := by
  cases p <;> first | rfl | exact hr.elim

/-- a calm step is no deed -/
theorem deed?_calm (s : Store) (hc : Calm h p p') : deed? s p p' = none := by
  cases hc with
  | failed hp => exact deed?_turnedBack s rfl
  | answered hn => exact deed?_of_not_writes s rfl fun c hc => by cases hc; exact hn
  | began hn _ => exact deed?_of_not_writes s rfl fun c hc => by cases hc; exact hn
  | went hr _ => exact deed?_of_not_writes s (writes_of_reads hr) fun c hc => by rw [hc] at hr; exact hr.elim
  | @opened c => cases c <;> rfl
  | asked _ => rfl
  | parsed => rfl
  | readAgain _ => rfl
  | ended => rfl

/-- the phase of a content call that neither writes nor has just been refused -/
theorem deed?_called_quiet {w : Ambient} {card : Uuid} (s : Store) (hn : Phase.Next h w card t.phase q) :
    deed? s (.call t purpose) (afterCall purpose { t with phase := q }) = none := by
  obtain ⟨handle, name, phase⟩ := t
  cases hn with
  | again => exact deed?_turnedBack s rfl
  | failed => exact deed?_turnedBack s rfl
  | _ => exact deed?_of_not_writes s rfl fun c hc => by cases hc

theorem deed?_called_replaced {new old : Block} (s : Store) (hp : t.phase = .replacing new old) :
    deed? s (.call t purpose) (afterCall purpose { t with phase := .done (.ok (.block new)) }) = some (.wrote s) := by
  obtain ⟨handle, name, phase⟩ := t
  cases hp
  cases purpose <;> rfl

theorem deed?_called_edited {edit : OrderEdit} {sequel : Sequel} {attempt : Nat} {read : Card} {order : List Uuid}
    (s : Store) (hp : t.phase = .writing edit sequel attempt read) :
    deed? s (.call t purpose) (afterCall purpose { t with phase := Task.afterEdit edit sequel order }) =
      some (.wrote s) := by
  obtain ⟨handle, name, phase⟩ := t
  cases hp
  cases edit <;> cases purpose <;> rfl

end Deeds

end RequestPhase

end Corkboard
