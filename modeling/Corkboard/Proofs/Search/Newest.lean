/-
The newest query wins.

Generations are given out in the order in which queries are issued, and results are written only while their query is
the last to be issued. However many queries are under way and however their steps mix:

- `newest_wins`: the generations that publish rise, so the desk never goes back to the results of an older query; a
  query has results exactly when it published them, and wrote nothing if it was superseded; when all issued queries are
  done, the last one issued has its results and the desk holds them.

The invariant is `Inquiries.Orderly`. It follows every query by `Inquiries.Stands`: not issued yet, under way with the
generation it took, superseded by a later one, or published.
-/
import Corkboard.Inquiries
import Corkboard.Proofs.Places

namespace Corkboard

variable {ι : Type}

/-! ## One step of a query -/

namespace QueryPhase

/-- the query is under way with its generation -/
def Carries (g : Nat) (query : String) : QueryPhase ι → Prop
  | waiting g' query' | searching g' query' | publishing g' query' _ => g' = g ∧ query' = query
  | _ => False

/-- desk and phase of the query at a place, before and after one step, with what the step publishes -/
inductive Acts (d : SearchDesk ι) (place : Nat) :
    QueryPhase ι → SearchDesk ι → QueryPhase ι → Option (Publication ι) → Prop
  | issued {text p'} : p'.Carries (d.generation + 1) (Text.trim text) →
    Acts d place (.issuing text) { d with generation := d.generation + 1 } p' none
  | went {g query p p'} : p.Carries g query → p'.Carries g query → Acts d place p d p' none
  | superseded {g query p} : p.Carries g query → d.generation ≠ g → Acts d place p d (.done none) none
  | published {query items} :
    Acts d place (.publishing d.generation query items) { d with latest := some ⟨query, items⟩ } (.done (some items))
      (some ⟨place, d.generation, ⟨query, items⟩⟩)
  | ended {r} : Acts d place (.done r) d (.done r) none

/-- **What a step does.** The desk, the phase and the publications change as `Acts` says. -/
theorem step_acts (find : String → List ι) (d : SearchDesk ι) (place : Nat) (p : QueryPhase ι) :
    Acts d place p (p.step find d).1 (p.step find d).2 (p.publication? d place) := by
  cases p with
  | issuing text =>
    refine .issued ?_
    by_cases hblank : Text.trim text = ""
    · simp only [step, hblank, if_true]
      exact ⟨rfl, rfl⟩
    · simp only [step, hblank, if_false]
      exact ⟨rfl, rfl⟩
  | waiting g query =>
    by_cases hg : d.generation = g
    · simp only [step, hg, if_true]
      exact .went ⟨rfl, rfl⟩ ⟨rfl, rfl⟩
    · simp only [step, hg, if_false]
      exact .superseded ⟨rfl, rfl⟩ hg
  | searching g query => exact .went ⟨rfl, rfl⟩ ⟨rfl, rfl⟩
  | publishing g query items =>
    by_cases hg : d.generation = g
    · subst hg
      simp only [step, publication?, if_true]
      exact .published
    · simp only [step, publication?, hg, if_false]
      exact .superseded ⟨rfl, rfl⟩ hg
  | done r => exact .ended

variable {d d' : SearchDesk ι} {p p' : QueryPhase ι} {place g g' : Nat} {query query' : String}
  {pub : Option (Publication ι)}

theorem Carries.unique (h : p.Carries g query) (h' : p.Carries g' query') : g' = g ∧ query' = query := by
  cases p <;> first | exact h.elim | exact ⟨h'.1.symm.trans h.1, h'.2.symm.trans h.2⟩

theorem Carries.isIssuing (h : p.Carries g query) : p.isIssuing = false := by
  cases p <;> first | rfl | exact h.elim

/-- a generation is given out exactly when a query is issued -/
theorem Acts.generation (h : Acts d place p d' p' pub) :
    d'.generation = d.generation + (if p.isIssuing then [place] else []).length := by
  cases h with
  | issued _ => rfl
  | went hc _ => simp [hc.isIssuing]
  | superseded hc _ => simp [hc.isIssuing]
  | published => rfl
  | ended => rfl

theorem Acts.latest (h : Acts d place p d' p' pub) : d'.latest = (pub.map (·.results)).or d.latest := by
  cases h <;> rfl

theorem Acts.of_done {r : Option (List ι)} (h : Acts d place p d' p' pub) (hp : p = .done r) : p' = p := by
  subst hp
  cases h with
  | went h _ => exact h.elim
  | superseded h _ => exact h.elim
  | ended => rfl

end QueryPhase

/-! ## Turns of a query -/

namespace Inquiry

/-- the query wrote no results at any of its steps -/
def Silent (q : Inquiry ι) : Prop := ∀ t ∈ q.turns, t.2.latest = t.1.latest

/-- the query wrote these results at one of its steps, and nothing at the others -/
def WroteOnce (q : Inquiry ι) (results : SearchResults ι) : Prop :=
  ∃ before t after, q.turns = before ++ t :: after ∧ t.2.latest = some results ∧
    ∀ u ∈ before ++ after, u.2.latest = u.1.latest

variable {q q' : Inquiry ι} {d d' : SearchDesk ι} {results : SearchResults ι}

theorem Silent.snoc (h : q.Silent) (hturns : q'.turns = q.turns ++ [(d, d')]) (hd : d'.latest = d.latest) :
    q'.Silent := by
  intro t ht
  rw [hturns] at ht
  rcases List.mem_append.1 ht with ht | ht
  · exact h t ht
  · obtain rfl := List.mem_singleton.1 ht
    exact hd

theorem Silent.wrote (h : q.Silent) (hturns : q'.turns = q.turns ++ [(d, d')]) (hd : d'.latest = some results) :
    q'.WroteOnce results :=
  ⟨q.turns, (d, d'), [], hturns, hd, by rw [List.append_nil]; exact h⟩

theorem WroteOnce.snoc (h : q.WroteOnce results) (hturns : q'.turns = q.turns ++ [(d, d')])
    (hd : d'.latest = d.latest) : q'.WroteOnce results := by
  obtain ⟨before, t, after, hq, ht, hrest⟩ := h
  refine ⟨before, t, after ++ [(d, d')], by rw [hturns, hq]; simp, ht, fun u hu => ?_⟩
  rw [← List.append_assoc] at hu
  rcases List.mem_append.1 hu with hu | hu
  · exact hrest u hu
  · obtain rfl := List.mem_singleton.1 hu
    exact hd

end Inquiry

namespace Inquiries

/-! ## The invariant -/

/-- the query at a place was the one to take the generation -/
def Took (s : Inquiries ι) (place g : Nat) : Prop := 0 < g ∧ s.issued[g - 1]? = some place

/-- how far the query at a place is -/
inductive Stands (s : Inquiries ι) (place : Nat) (q : Inquiry ι) : Prop
  | asked : q.phase = .issuing q.text → place ∉ s.issued → q.Silent → Stands s place q
  | underWay {g : Nat} : q.phase.Carries g (Text.trim q.text) → s.Took place g → q.Silent → Stands s place q
  | superseded {g : Nat} : q.phase = .done none → s.Took place g → g < s.desk.generation → q.Silent → Stands s place q
  | published {items : List ι} : q.phase = .done (some items) → place ∈ s.issued →
    q.WroteOnce ⟨Text.trim q.text, items⟩ → (∃ p ∈ s.published, p.place = place) → Stands s place q

/-- what was published is the answer of the query that took the generation -/
structure Backed (s : Inquiries ι) (p : Publication ι) : Prop where
  took : s.Took p.place p.generation
  answer : ∃ q items, s.asked[p.place]? = some q ∧ q.phase = .done (some items) ∧ p.results = ⟨Text.trim q.text, items⟩

/-- the queries, what they took and what they published fit together -/
structure Orderly (s : Inquiries ι) : Prop where
  counted : s.desk.generation = s.issued.length
  once : s.issued.Nodup
  stands : ∀ {place : Nat} {q : Inquiry ι}, s.asked[place]? = some q → s.Stands place q
  known : ∀ {place : Nat}, place ∈ s.issued → place < s.asked.length
  backed : ∀ p ∈ s.published, s.Backed p
  rising : (s.published.map (·.generation)).Pairwise (· < ·)
  newest : s.desk.latest = s.published.getLast?.map (·.results)

variable {s s' : Inquiries ι} {place g : Nat} {q q' : Inquiry ι} {p : Publication ι} {d' : SearchDesk ι}
  {p' : QueryPhase ι} {pub : Option (Publication ι)}

theorem Took.mem (h : s.Took place g) : place ∈ s.issued := List.mem_of_getElem? h.2

theorem Took.le (h : s.Took place g) : g ≤ s.issued.length := by
  obtain ⟨hlt, -⟩ := List.getElem?_eq_some_iff.1 h.2
  have hpos := h.1
  omega

theorem Took.place_unique {place' : Nat} (h : s.Took place g) (h' : s.Took place' g) : place' = place :=
  Option.some.inj (h'.2.symm.trans h.2)

/-- generations stay with the queries that took them -/
theorem Took.grow (h : s.Took place g) {more : List Nat} (hi : s'.issued = s.issued ++ more) : s'.Took place g := by
  have hpos := h.1
  have hle := h.le
  exact ⟨hpos, by rw [hi, List.getElem?_append_left (by omega), h.2]⟩

/-- the next generation goes to the query that is issued next -/
theorem took_next (hi : s'.issued = s.issued ++ [place]) : s'.Took place (s.issued.length + 1) :=
  ⟨Nat.succ_pos _, by simp [hi]⟩

theorem Stands.of_issuing {text : String} (h : s.Stands place q) (hp : q.phase = .issuing text) :
    text = q.text ∧ place ∉ s.issued ∧ q.Silent := by
  cases h with
  | asked hp' hnot hs => cases hp.symm.trans hp'; exact ⟨rfl, hnot, hs⟩
  | underWay hc => rw [hp] at hc; exact hc.elim
  | superseded hp' => cases hp.symm.trans hp'
  | published hp' => cases hp.symm.trans hp'

theorem Stands.of_carries {query : String} (h : s.Stands place q) (hc : q.phase.Carries g query) :
    query = Text.trim q.text ∧ s.Took place g ∧ q.Silent := by
  cases h with
  | asked hp => rw [hp] at hc; exact hc.elim
  | underWay hc' ht hs =>
    obtain ⟨rfl, rfl⟩ := hc.unique hc'
    exact ⟨rfl, ht, hs⟩
  | superseded hp => rw [hp] at hc; exact hc.elim
  | published hp => rw [hp] at hc; exact hc.elim

/-- a query is not moved by the steps of others -/
theorem Stands.grow (h : s.Stands place q) {more : List Nat} {pubs : List (Publication ι)}
    (hi : s'.issued = s.issued ++ more) (hmore : place ∉ more) (hg : s.desk.generation ≤ s'.desk.generation)
    (hp : s'.published = s.published ++ pubs) : s'.Stands place q := by
  cases h with
  | asked hphase hnot hs => exact .asked hphase (by simp [hi, hnot, hmore]) hs
  | underWay hc ht hs => exact .underWay hc (ht.grow hi) hs
  | superseded hphase ht hlt hs => exact .superseded hphase (ht.grow hi) (Nat.lt_of_lt_of_le hlt hg) hs
  | published hphase hin hw hpub =>
    obtain ⟨p, hmem, hplace⟩ := hpub
    exact .published hphase (by simp [hi, hin]) hw ⟨p, by simp [hp, hmem], hplace⟩

/-- what was published stays the answer of its query -/
theorem Backed.grow (h : s.Backed p) {more : List Nat} (hi : s'.issued = s.issued ++ more)
    (hasked : ∀ q r, s.asked[p.place]? = some q → q.phase = .done r →
      ∃ q', s'.asked[p.place]? = some q' ∧ q'.phase = q.phase ∧ q'.text = q.text) : s'.Backed p := by
  obtain ⟨q, items, hq, hphase, hres⟩ := h.answer
  obtain ⟨q', hq', hphase', htext⟩ := hasked q _ hq hphase
  exact ⟨h.took.grow hi, q', items, hq', hphase'.trans hphase, by rw [hres, htext]⟩

theorem orderly_new : (new : Inquiries ι).Orderly where
  counted := rfl
  once := List.nodup_nil
  stands h := by simp [new] at h
  known h := by simp [new] at h
  backed p hp := by simp [new] at hp
  rising := List.Pairwise.nil
  newest := rfl

namespace Orderly

theorem ask (h : s.Orderly) (text : String) : (s.take (.ask text)).Orderly where
  counted := h.counted
  once := h.once
  stands {place q} hq := by
    rcases Places.getElem?_concat_eq_some_iff.1 hq with hq | ⟨rfl, rfl⟩
    · exact (h.stands hq).grow (List.append_nil _).symm List.not_mem_nil (Nat.le_refl _) (List.append_nil _).symm
    · exact .asked rfl (fun hm => absurd (h.known hm) (Nat.lt_irrefl _)) (by simp [Inquiry.Silent])
  known hp := by
    have hlt := h.known hp
    simp only [take, List.length_append, List.length_singleton]
    omega
  backed p hp := (h.backed p hp).grow (List.append_nil _).symm fun q _ hq _ =>
    ⟨q, Places.getElem?_concat_eq_some_iff.2 (.inl hq), rfl, rfl⟩
  rising := h.rising
  newest := h.newest

/-- the generation of a query under way is newer than all that published, unless it has published itself -/
theorem lt_of_took (h : s.Orderly) (hp : p ∈ s.published) (ht : s.Took place s.desk.generation)
    (hne : p.place ≠ place) : p.generation < s.desk.generation := by
  have hle := (h.backed p hp).took.le
  rw [← h.counted] at hle
  refine Nat.lt_of_le_of_ne hle fun he => hne ?_
  exact ht.place_unique (he ▸ (h.backed p hp).took)

/-- how far a query is after its own step -/
theorem stands_after (h : s.Orderly) (hq : s.asked[place]? = some q) (hacts : q.phase.Acts s.desk place d' p' pub) :
    (s.after place q d' p' pub).Stands place ⟨q.text, p', q.turns ++ [(s.desk, d')]⟩ := by
  have hstands := h.stands hq
  have hissued : (s.after place q d' p' pub).issued = s.issued ++ if q.phase.isIssuing then [place] else [] := rfl
  generalize hphase : q.phase = phase at hacts hissued
  cases hacts with
  | issued hc =>
    obtain ⟨rfl, -, hs⟩ := hstands.of_issuing hphase
    exact .underWay hc (h.counted ▸ took_next hissued) (hs.snoc rfl rfl)
  | went hc hc' =>
    obtain ⟨rfl, ht, hs⟩ := hstands.of_carries (hphase ▸ hc)
    exact .underWay hc' (ht.grow hissued) (hs.snoc rfl rfl)
  | superseded hc hne =>
    obtain ⟨rfl, ht, hs⟩ := hstands.of_carries (hphase ▸ hc)
    have hle := ht.le
    rw [← h.counted] at hle
    exact .superseded rfl (ht.grow hissued) (Nat.lt_of_le_of_ne hle (Ne.symm hne)) (hs.snoc rfl rfl)
  | published =>
    obtain ⟨rfl, ht, hs⟩ := hstands.of_carries (by rw [hphase]; exact ⟨rfl, rfl⟩)
    exact .published rfl (ht.grow hissued).mem (hs.wrote rfl rfl)
      ⟨_, List.mem_append_right _ List.mem_cons_self, rfl⟩
  | ended =>
    cases hstands with
    | asked hp => cases hphase.symm.trans hp
    | underWay hown => rw [hphase] at hown; exact hown.elim
    | superseded hp ht hlt hs => exact .superseded (hphase.symm.trans hp) (ht.grow hissued) hlt (hs.snoc rfl rfl)
    | published hp hin hw hpub =>
      obtain ⟨p, hmem, hplace⟩ := hpub
      exact .published (hphase.symm.trans hp) (List.mem_append_left _ hin) (hw.snoc rfl rfl)
        ⟨p, List.mem_append_left _ hmem, hplace⟩

/-- what was published by then, or by this step, is the answer of its query -/
theorem backed_after (h : s.Orderly) (hq : s.asked[place]? = some q) (hacts : q.phase.Acts s.desk place d' p' pub)
    (hp : p ∈ s.published ++ pub.toList) : (s.after place q d' p' pub).Backed p := by
  have hlt : place < s.asked.length := (List.getElem?_eq_some_iff.1 hq).1
  rcases List.mem_append.1 hp with hp | hp
  · refine (h.backed p hp).grow rfl fun q₀ r hq₀ hr => ?_
    by_cases hplace : p.place = place
    · rw [hplace, hq] at hq₀
      cases hq₀
      exact ⟨_, Places.getElem?_set_eq_some_iff hlt |>.2 (.inl ⟨hplace, rfl⟩), hacts.of_done hr, rfl⟩
    · exact ⟨q₀, Places.getElem?_set_eq_some_iff hlt |>.2 (.inr ⟨hplace, hq₀⟩), rfl, rfl⟩
  · obtain rfl := Option.mem_toList.1 hp
    generalize hphase : q.phase = phase at hacts
    cases hacts with
    | published =>
      obtain ⟨rfl, ht, -⟩ := (h.stands hq).of_carries (by rw [hphase]; exact ⟨rfl, rfl⟩)
      exact ⟨ht.grow rfl, _, _, Places.getElem?_set_eq_some_iff hlt |>.2 (.inl ⟨rfl, rfl⟩), rfl, rfl⟩

/-- what is published comes from a newer query than all that was published before -/
theorem rising_after (h : s.Orderly) (hq : s.asked[place]? = some q) (hacts : q.phase.Acts s.desk place d' p' pub) :
    ((s.published ++ pub.toList).map (·.generation)).Pairwise (· < ·) := by
  generalize hphase : q.phase = phase at hacts
  cases hacts with
  | published =>
    obtain ⟨rfl, ht, -⟩ := (h.stands hq).of_carries (by rw [hphase]; exact ⟨rfl, rfl⟩)
    rw [List.map_append, List.pairwise_append]
    refine ⟨h.rising, List.pairwise_singleton _ _, fun g hg g' hg' => ?_⟩
    obtain ⟨p, hp, rfl⟩ := List.mem_map.1 hg
    obtain rfl := List.mem_singleton.1 hg'
    refine h.lt_of_took hp ht fun hplace => ?_
    obtain ⟨q₀, items, hq₀, hdone, -⟩ := (h.backed p hp).answer
    rw [hplace, hq] at hq₀
    cases hq₀
    cases hphase.symm.trans hdone
  | _ => simpa using h.rising

/-- a query takes a generation once -/
theorem once_after (h : s.Orderly) (hq : s.asked[place]? = some q) :
    (s.issued ++ if q.phase.isIssuing then [place] else []).Nodup := by
  cases hphase : q.phase with
  | issuing text =>
    obtain ⟨-, hnot, -⟩ := (h.stands hq).of_issuing hphase
    exact List.nodup_append.2 ⟨h.once, by simp [QueryPhase.isIssuing], by
      rintro x hx y hy rfl
      obtain rfl := List.mem_singleton.1 hy
      exact hnot hx⟩
  | _ => simpa [QueryPhase.isIssuing] using h.once

/-- one step of a query -/
theorem after (h : s.Orderly) (hq : s.asked[place]? = some q) (hacts : q.phase.Acts s.desk place d' p' pub) :
    (s.after place q d' p' pub).Orderly := by
  have hlt : place < s.asked.length := (List.getElem?_eq_some_iff.1 hq).1
  have hmine : ∀ x ∈ (if q.phase.isIssuing then [place] else []), x = place := by
    split <;> simp
  exact {
    counted := by simp only [Inquiries.after, hacts.generation, h.counted, List.length_append]
    once := h.once_after hq
    stands := fun {place' q'} hq' => by
      rcases (Places.getElem?_set_eq_some_iff hlt).1 hq' with ⟨rfl, rfl⟩ | ⟨hne, hq'⟩
      · exact h.stands_after hq hacts
      · refine (h.stands hq').grow rfl (fun hm => hne (hmine _ hm)) ?_ rfl
        simp only [Inquiries.after, hacts.generation]
        omega
    known := fun {place'} hp => by
      rw [Inquiries.after, List.length_set]
      rcases List.mem_append.1 hp with hp | hp
      · exact h.known hp
      · exact hmine _ hp ▸ hlt
    backed := fun p hp => h.backed_after hq hacts hp
    rising := h.rising_after hq hacts
    newest := by
      simp only [Inquiries.after, hacts.latest, h.newest, List.getLast?_append]
      cases pub <;> rfl }

theorem take (h : s.Orderly) (e : Event ι) : (s.take e).Orderly := by
  cases e with
  | ask text => exact h.ask text
  | step place find =>
    cases hq : s.asked[place]? with
    | none => simpa only [Inquiries.take, hq] using h
    | some q =>
      have hafter := h.after hq (q.phase.step_acts find s.desk place)
      simp only [Inquiries.take, hq]
      exact hafter

theorem run (h : s.Orderly) (es : List (Event ι)) : (s.run es).Orderly := by
  induction es generalizing s with
  | nil => exact h
  | cons e es ih => exact ih (h.take e)

end Orderly

/-! ## The newest query -/

/-- the generation of the results that the desk holds, 0 if it holds none -/
def newestGeneration (s : Inquiries ι) : Nat := (s.published.getLast?.map (·.generation)).getD 0

/-- what holds of queries whose steps mix in any order -/
structure NewestWins (s : Inquiries ι) : Prop where
  /-- a query is issued once, and generations count the queries that were issued -/
  ranked : s.issued.Nodup ∧ s.desk.generation = s.issued.length
  /-- what was published came from queries issued one after the other, each at most once -/
  rising : (s.published.map (·.generation)).Pairwise (· < ·) ∧ (s.published.map (·.place)).Nodup
  /-- a generation that published was taken by the query of the publication -/
  owned : ∀ p ∈ s.published, 0 < p.generation ∧ s.issued[p.generation - 1]? = some p.place
  /-- the desk holds what was published last -/
  newest : s.desk.latest = s.published.getLast?.map (·.results)
  /-- a query has results exactly when it published them, under its own trimmed text -/
  answered : ∀ {place : Nat} {q : Inquiry ι} {items : List ι}, s.asked[place]? = some q →
    (q.phase = .done (some items) ↔ ∃ p ∈ s.published, p.place = place ∧ p.results = ⟨Text.trim q.text, items⟩)
  /-- a query with results wrote them at one step, after which the desk held them -/
  wrote : ∀ {place : Nat} {q : Inquiry ι} {items : List ι}, s.asked[place]? = some q →
    q.phase = .done (some items) → q.WroteOnce ⟨Text.trim q.text, items⟩
  /-- a superseded query wrote nothing -/
  silent : ∀ {place : Nat} {q : Inquiry ι}, s.asked[place]? = some q → q.phase = .done none → q.Silent
  /-- when all issued queries are done, the last one issued has results and the desk holds them -/
  settled : ∀ {place : Nat}, s.issued.getLast? = some place →
    (∀ i ∈ s.issued, ∃ q, s.asked[i]? = some q ∧ q.phase.isDone) →
    ∃ q items, s.asked[place]? = some q ∧ q.phase = .done (some items) ∧ s.desk.latest = some ⟨Text.trim q.text, items⟩

namespace Orderly

/-- a query takes one generation only -/
theorem generation_unique (h : s.Orderly) {g' : Nat} (ht : s.Took place g) (ht' : s.Took place g') : g = g' := by
  obtain ⟨hpos, hg⟩ := ht
  obtain ⟨hpos', hg'⟩ := ht'
  obtain ⟨hlt, -⟩ := List.getElem?_eq_some_iff.1 hg
  have heq := (List.getElem?_inj hlt h.once).1 (hg.trans hg'.symm)
  omega

theorem answered (h : s.Orderly) {items : List ι} (hq : s.asked[place]? = some q) :
    q.phase = .done (some items) ↔ ∃ p ∈ s.published, p.place = place ∧ p.results = ⟨Text.trim q.text, items⟩ := by
  have hown : ∀ p ∈ s.published, p.place = place →
      ∃ items', q.phase = .done (some items') ∧ p.results = ⟨Text.trim q.text, items'⟩ := by
    intro p hp hplace
    obtain ⟨q', items', hq', hdone, hres⟩ := (h.backed p hp).answer
    rw [hplace, hq] at hq'
    cases hq'
    exact ⟨items', hdone, hres⟩
  constructor
  · intro hdone
    cases h.stands hq with
    | asked hp => cases hdone.symm.trans hp
    | underWay hc => rw [hdone] at hc; exact hc.elim
    | superseded hp => cases hdone.symm.trans hp
    | published _ _ _ hpub =>
      obtain ⟨p, hmem, hplace⟩ := hpub
      obtain ⟨items', hdone', hres⟩ := hown p hmem hplace
      cases hdone.symm.trans hdone'
      exact ⟨p, hmem, hplace, hres⟩
  · intro hpub
    obtain ⟨p, hmem, hplace, hres⟩ := hpub
    obtain ⟨items', hdone, hres'⟩ := hown p hmem hplace
    cases hres.symm.trans hres'
    exact hdone

/-- the publication of the last query issued is the last one -/
theorem getLast?_of_last (h : s.Orderly) (hp : p ∈ s.published) (hlast : p.generation = s.desk.generation) :
    s.published.getLast? = some p := by
  obtain ⟨older, final, hsplit⟩ := List.eq_nil_or_concat s.published |>.resolve_left (List.ne_nil_of_mem hp)
  rw [List.concat_eq_append] at hsplit
  rw [hsplit] at hp ⊢
  rcases List.mem_append.1 hp with hp | hp
  · have hrising := h.rising
    rw [hsplit, List.map_append, List.pairwise_append] at hrising
    have hlt := hrising.2.2 _ (List.mem_map_of_mem hp) final.generation (by simp)
    have hle := (h.backed final (by simp [hsplit])).took.le
    rw [← h.counted] at hle
    omega
  · obtain rfl := List.mem_singleton.1 hp
    exact List.getLast?_concat

theorem settled (h : s.Orderly) (hlast : s.issued.getLast? = some place)
    (hdone : ∀ i ∈ s.issued, ∃ q, s.asked[i]? = some q ∧ q.phase.isDone) :
    ∃ q items, s.asked[place]? = some q ∧ q.phase = .done (some items) ∧
      s.desk.latest = some ⟨Text.trim q.text, items⟩ := by
  have ht : s.Took place s.desk.generation := by
    have hpos : s.issued ≠ [] := by rintro hnil; simp [hnil] at hlast
    rw [List.getLast?_eq_getElem?] at hlast
    exact ⟨h.counted ▸ List.length_pos_iff.2 hpos, h.counted ▸ hlast⟩
  obtain ⟨q, hq, hq'⟩ := hdone place ht.mem
  cases h.stands hq with
  | asked hp => rw [hp] at hq'; cases hq'
  | underWay hc => cases hphase : q.phase <;> simp_all [QueryPhase.isDone, QueryPhase.Carries]
  | superseded _ ht' hlt => exact absurd (h.generation_unique ht ht') (Nat.ne_of_gt hlt)
  | @published items hp _ _ hpub =>
    obtain ⟨p, hmem, hplace⟩ := hpub
    obtain ⟨q', items', hq₁, hp', hres⟩ := (h.backed p hmem).answer
    rw [hplace, hq] at hq₁
    cases hq₁
    cases hp.symm.trans hp'
    have hgen : p.generation = s.desk.generation := h.generation_unique (hplace ▸ (h.backed p hmem).took) ht
    exact ⟨q, items, hq, hp, by rw [h.newest, h.getLast?_of_last hmem hgen, Option.map_some, hres]⟩

theorem newestWins (h : s.Orderly) : s.NewestWins where
  ranked := ⟨h.once, h.counted⟩
  rising := by
    refine ⟨h.rising, ?_⟩
    rw [List.Nodup, List.pairwise_map]
    refine List.Pairwise.imp_of_mem (fun {a b} ha hb hlt hplace => ?_) (List.pairwise_map.1 h.rising)
    have heq := h.generation_unique (h.backed a ha).took (hplace ▸ (h.backed b hb).took)
    omega
  owned p hp := (h.backed p hp).took
  newest := h.newest
  answered hq := h.answered hq
  wrote hq hdone := by
    cases h.stands hq with
    | asked hp => cases hdone.symm.trans hp
    | underWay hc => rw [hdone] at hc; exact hc.elim
    | superseded hp => cases hdone.symm.trans hp
    | published hp _ hw => cases hdone.symm.trans hp; exact hw
  silent hq hdone := by
    cases h.stands hq with
    | asked hp => cases hdone.symm.trans hp
    | underWay hc => rw [hdone] at hc; exact hc.elim
    | superseded _ _ _ hs => exact hs
    | published hp => cases hdone.symm.trans hp
  settled hlast hdone := h.settled hlast hdone

end Orderly

/-- publications are never taken back -/
theorem published_run (s : Inquiries ι) (es : List (Event ι)) : ∃ pubs, (s.run es).published = s.published ++ pubs := by
  induction es generalizing s with
  | nil => exact ⟨[], (List.append_nil _).symm⟩
  | cons e es ih =>
    obtain ⟨pubs, hpubs⟩ := ih (s.take e)
    have htake : ∃ pubs', (s.take e).published = s.published ++ pubs' := by
      cases e with
      | ask text => exact ⟨[], (List.append_nil _).symm⟩
      | step place find =>
        simp only [take]
        split
        · exact ⟨_, rfl⟩
        · exact ⟨[], (List.append_nil _).symm⟩
    obtain ⟨pubs', hpubs'⟩ := htake
    exact ⟨pubs' ++ pubs, by rw [← List.append_assoc, ← hpubs', ← hpubs]; rfl⟩

/-- the desk never goes back to the results of an older query -/
theorem newestGeneration_le_run (h : s.Orderly) (es : List (Event ι)) :
    s.newestGeneration ≤ (s.run es).newestGeneration := by
  obtain ⟨pubs, hpubs⟩ := s.published_run es
  have hrising := (h.run es).rising
  unfold newestGeneration
  rw [hpubs] at hrising ⊢
  rw [List.map_append, List.pairwise_append] at hrising
  cases hlast : pubs.getLast? with
  | none => simp [List.getLast?_append, hlast]
  | some p' =>
    cases hold : s.published.getLast? with
    | none => simp
    | some p =>
      simp only [List.getLast?_append, hlast, Option.some_or, Option.map_some, Option.getD_some]
      exact Nat.le_of_lt (hrising.2.2 _ (List.mem_map_of_mem (List.mem_of_getLast? hold)) _
        (List.mem_map_of_mem (List.mem_of_getLast? hlast)))

/-- **The newest query wins.** However many queries are under way and however their steps mix, what publishes comes from
ever newer queries, results and publications are the same thing, and the last query issued has the last word. -/
theorem newest_wins (es later : List (Event ι)) :
    (new.run es).NewestWins ∧ (new.run es).newestGeneration ≤ ((new.run es).run later).newestGeneration :=
  ⟨(orderly_new.run es).newestWins, newestGeneration_le_run (orderly_new.run es) later⟩

/-- the first query has found its results when the second is issued: they are dropped -/
example : ((new.run ([.ask "a", .ask "b"] ++
    [0, 0, 0, 1, 0, 1, 1, 1].map fun place => .step place fun _ => [place])).asked.map Inquiry.phase :
      List (QueryPhase Nat)) = [.done none, .done (some [1])] := rfl

end Inquiries

end Corkboard
