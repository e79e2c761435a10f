/-
The write of a property by a request that nothing interrupts.

The request reads its card, reads the input, writes the value and reads the card again: four steps, and whatever it may
draw of times and identifiers has no part in them. Where it stands after any number of them is
`RequestPhase.inputStage`.

- `step_inputStage`: one step goes on to the next stage, and the third one puts the card with the value in the store.
- `serve_input`: so after four steps or more the store has the card with the value, the answer is that card, and
  templates and people are as they were.
-/
import Corkboard.Proofs.Api.Frames

namespace Corkboard

/-- the card with another value of a property, or with none -/
def Card.writeProperty (c : Card) (id : String) (v : Option Json) : Card :=
  { c with properties := c.properties.alter id v }

namespace Card

variable (c : Card) (id : String) (v : Option Json)

theorem property?_writeProperty (id' : String) :
    (c.writeProperty id v).property? id' = if id' = id then v else c.property? id' := Table.get?_alter ..

@[simp] theorem property?_writeProperty_self : (c.writeProperty id v).property? id = v := by
  rw [property?_writeProperty, if_pos rfl]

theorem writeProperty_self : c.writeProperty id (c.property? id) = c := by
  have hsame : c.properties.alter id (c.property? id) = c.properties := by
    refine Table.ext_get? fun j => ?_
    rw [Table.get?_alter]
    split
    · rename_i hj
      rw [hj]
      rfl
    · rfl
  rw [writeProperty, hsame]

end Card

namespace RequestPhase

variable {w : AppWorld} {a : App} {s : Store} {c : Card} {id text : String} {v : Option Json}

/-- where a request that reads an input as a value stands after so many steps by itself -/
def inputStage (c : Card) (id text : String) (v : Option Json) : Nat → RequestPhase
  | 0 => start (.setProperty c.id id text)
  | 1 => parseInput c id text
  | 2 => writeProperty c id v
  | 3 => readBack c.id
  | _ => done (.card (c.writeProperty id v))

/-- the store at a stage: the third step writes the card -/
def inputStore (s : Store) (c : Card) (id : String) (v : Option Json) (n : Nat) : Store :=
  if n ≤ 2 then s else s.putCard (c.writeProperty id v)

theorem step_writeProperty {m : Ambient} {name : Nat} (hc : a.store.card? c.id = some c) :
    ∃ a', step w m name a (.writeProperty c id v) = (a', .readBack c.id) ∧
    a'.store = a.store.putCard (c.writeProperty id v) ∧ a'.board = a.board := by
  have hmutation : Mutation.apply m.now a.store ⟨.setProperty c.id id (c.property? id) v, "edit property"⟩ =
      .ok (a.store.putCard (c.writeProperty id v), ⟨_, _⟩) :=
    Mutation.apply_eq_ok_iff.2 ⟨Change.apply_setProperty.2 ⟨c, hc, rfl, rfl⟩, rfl⟩
  have hcommit := (History.commit_eq_ok_iff (h := a.desk.doc) (by simp)).2
    ⟨_, _, applyGroup_singleton_eq_ok_iff.2 ⟨_, hmutation, rfl⟩, rfl⟩
  simp only [step, hcommit]
  exact ⟨_, rfl, rfl, rfl⟩

/-- one step from a stage to the next; `s` is the store before the first -/
theorem step_inputStage (m : Ambient) (name : Nat) (hread : readInput w a.board id text = .ok v)
    (hc : s.card? c.id = some c) (n : Nat) (hs : a.store = inputStore s c id v n) :
    ∃ a', (inputStage c id text v n).step w m name a = (a', inputStage c id text v (n + 1)) ∧
      a'.store = inputStore s c id v (n + 1) ∧ a'.board = a.board := by
  match n with
  | 0 =>
    have hstart : a.store = s := hs
    have hcard : a.store.card? c.id = some c := hstart ▸ hc
    exact ⟨a, by simp only [inputStage, step, begin, hcard], hs, rfl⟩
  | 1 => exact ⟨a, by simp only [inputStage, step, hread], hs, rfl⟩
  | 2 =>
    have hstart : a.store = s := hs
    obtain ⟨a', hstep, hstore, hboard⟩ := step_writeProperty (hstart ▸ hc)
    exact ⟨a', hstep, by rw [hstore, hstart]; rfl, hboard⟩
  | 3 =>
    have hcard : a.store.card? c.id = some (c.writeProperty id v) := by
      rw [hs]
      exact (Store.card?_putCard ..).trans (if_pos rfl)
    exact ⟨a, by simp only [inputStage, step, hcard], hs, rfl⟩
  | n + 4 => exact ⟨a, rfl, hs, rfl⟩

end RequestPhase

namespace Traffic

open RequestPhase (inputStage inputStore readInput)

variable {w : AppWorld} {u : Traffic} {c : Card} {id text : String} {v : Option Json}

/-- **A property written by a request by itself.** After four steps or more the store has the card with the value that
the input was read as, which also is the answer; templates and people are as they were. Before that the store is as it
was, or has the card already. -/
theorem serve_input (hread : readInput w u.app.board id text = .ok v) (hc : u.app.store.card? c.id = some c)
    (ms : List Ambient) :
    (u.serve w (.setProperty c.id id text) ms).app.store = inputStore u.app.store c id v ms.length ∧
      (u.serve w (.setProperty c.id id text) ms).app.board = u.app.board ∧
      (4 ≤ ms.length → (u.serve w (.setProperty c.id id text) ms).requests[u.requests.length]? =
        some ⟨.setProperty c.id id text, .done (.card (c.writeProperty id v))⟩) := by
  have hstages : ∀ n m a, (a.store = inputStore u.app.store c id v n ∧ a.board = u.app.board) →
      ∃ a', (inputStage c id text v n).step w m u.requests.length a = (a', inputStage c id text v (n + 1)) ∧
        a'.store = inputStore u.app.store c id v (n + 1) ∧ a'.board = u.app.board := by
    rintro n m a ⟨hstore, hboard⟩
    obtain ⟨a', hstep, hstore', hboard'⟩ :=
      RequestPhase.step_inputStage m u.requests.length (hboard ▸ hread) hc n hstore
    exact ⟨a', hstep, hstore', hboard'.trans hboard⟩
  obtain ⟨hphase, hstore, hboard⟩ := serve_passes rfl hstages ⟨rfl, rfl⟩ ms
  refine ⟨hstore, hboard, fun hlength => hphase.trans ?_⟩
  obtain ⟨k, hk⟩ := Nat.exists_eq_add_of_le' hlength
  rw [hk]
  rfl

end Traffic

end Corkboard
