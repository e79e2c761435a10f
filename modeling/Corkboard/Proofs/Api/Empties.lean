/-
What is counted as empty and what is shown as empty.

A calculation counts the cards without a value of a property, and each card shows whether it has one. The two agree on
every value that its template's type can tell; but a template may be given another type while the values stay, and
identifiers of options and people may be blank.

- `countEmpty_iff_legible`: in every reachable state the count is at most the number of cards that show the property as
  empty, and equal to it exactly when every stored value is legible to the type. It is equal after every run in which no
  template changes the form of what it stores and no option or person has a blank identifier.
- `retyped_counts_less`: a selection made a multiple selection, with one card that shows nothing and is not counted.
-/
import Corkboard.Proofs.Api.Frames
import Corkboard.Proofs.Api.Rules

namespace Corkboard

/-! ## Answers -/

namespace Traffic

variable {w : AppWorld} {t : Traffic} {c : Command} {r : Reply}

/-- a request is answered so, once it has taken its steps, if nothing comes between them -/
def Answers (w : AppWorld) (t : Traffic) (c : Command) (r : Reply) : Prop :=
  ∃ n, ∀ ms : List Ambient, n ≤ ms.length → (t.serve w c ms).requests[t.requests.length]? = some ⟨c, .done r⟩

/-- a phase that comes to a reply in a state without a change of it -/
inductive Resolves (w : AppWorld) (a : App) (r : Reply) : Nat → RequestPhase → Prop
  | done : Resolves w a r 0 (.done r)
  | step {n p p'} : (∀ m name, p.step w m name a = (a, p')) → Resolves w a r n p' → Resolves w a r (n + 1) p

theorem resolves_run {n place : Nat} {p : RequestPhase} (hr : Resolves w t.app r n p)
    (hq : t.requests[place]? = some ⟨c, p⟩) (ms : List Ambient) (hn : n ≤ ms.length) :
    (t.run w (ms.map (.step place))).requests[place]? = some ⟨c, .done r⟩ := by
  induction ms generalizing t n p with
  | nil =>
    obtain rfl : n = 0 := by simpa using hn
    cases hr
    exact hq
  | cons m ms ih =>
    have hnext := getElem?_take_step w hq m
    have happ := (take_step w hq m).1
    cases hr with
    | done => exact ih (t := t.take w (.step place m)) (happ ▸ .done) hnext (Nat.zero_le _)
    | step hstep hrest =>
      simp only [hstep] at hnext happ
      exact ih (t := t.take w (.step place m)) (happ ▸ hrest) hnext (by simpa using hn)

theorem Resolves.answers {n : Nat} (hr : Resolves w t.app r n (.start c)) : t.Answers w c r := by
  have harrived : (t.take w (.arrive c)).requests[t.requests.length]? = some ⟨c, .start c⟩ := by simp [Traffic.take]
  exact ⟨n, fun ms hn => resolves_run (t := t.take w (.arrive c)) hr harrived ms hn⟩

theorem answers_calculate {id : String} {u : PropertyTemplate} {k : PropertyKind} {calculation : Calculation}
    (hu : t.app.board.template? id = some u) (hk : w.properties.kindOf u = .ok k) (hc : k.supports calculation = true) :
    t.Answers w (.calculate id calculation)
      (.result (calculation.compute (t.app.store.listed.map fun card => card.property? id))) := by
  have hid : u.id = id := by simpa using List.find?_some hu
  have hfind : ∀ m name, RequestPhase.step w m name t.app (.start (.calculate id calculation)) =
      (t.app, .compute u calculation) := fun m name => by
    simp only [RequestPhase.step, RequestPhase.begin, hu]
  have hcompute : ∀ m name, RequestPhase.step w m name t.app (.compute u calculation) =
      (t.app, .done (.result (calculation.compute (t.app.store.listed.map fun card => card.property? id)))) :=
    fun m name => by
      simp only [RequestPhase.step, PropertyRegistry.calculate, hk, hid, bind, Except.bind, if_pos hc]
  exact Resolves.answers (.step hfind (.step hcompute .done))

theorem answers_getCard {card : Card} (hcard : t.app.store.card? card.id = some card) :
    t.Answers w (.getCard card.id) (.shownCard card (Gallery.renderContents w.content t.app.store card.id)
      (Gallery.renderProperties w.properties t.app.board card)) := by
  have hread : ∀ m name, RequestPhase.step w m name t.app (.start (.getCard card.id)) = (t.app, .showBody card) :=
    fun m name => by simp only [RequestPhase.step, RequestPhase.begin, hcard]
  exact Resolves.answers (.step hread (.step (fun _ _ => rfl) (.step (fun _ _ => rfl) .done)))

theorem answers_previewCard {card : Card} (hcard : t.app.store.card? card.id = some card) :
    t.Answers w (.previewCard card.id)
      (.preview (Gallery.preview w.content w.properties t.app.store t.app.board card)) := by
  have hread :
      ∀ m name, RequestPhase.step w m name t.app (.start (.previewCard card.id)) = (t.app, .showPreview card) :=
    fun m name => by simp only [RequestPhase.step, RequestPhase.begin, hcard]
  exact Resolves.answers (.step hread (.step (fun _ _ => rfl) .done))

end Traffic

/-! ## Counting -/

theorem Store.mem_listed {s : Store} {c : Card} (hc : s.card? c.id = some c) : c ∈ s.listed :=
  List.mem_mergeSort.2 ((Table.mem_values_iff s.cards c).2 ⟨c.id, hc⟩)

theorem Store.card?_of_listed {s : Store} {c : Card} (hc : c ∈ s.listed) : s.card? c.id = some c := by
  obtain ⟨id, hid⟩ := (Table.mem_values_iff s.cards c).1 (List.mem_mergeSort.1 hc)
  rw [s.cardKeys id c hid]
  exact hid

/-- of two tests of which one implies the other, the counts are the same exactly where the tests are -/
theorem countP_eq_iff {α : Type} {p q : α → Bool} {as : List α} (hpq : ∀ a ∈ as, p a = true → q a = true) :
    as.countP p = as.countP q ↔ ∀ a ∈ as, ¬ (q a = true ∧ p a = false) := by
  induction as with
  | nil => simp
  | cons a as ih =>
    have hrest : ∀ b ∈ as, p b = true → q b = true := fun b hb => hpq b (List.mem_cons_of_mem _ hb)
    have hle : as.countP p ≤ as.countP q := List.countP_mono_left hrest
    have ha := hpq a List.mem_cons_self
    rw [List.forall_mem_cons, ← ih hrest]
    cases hp : p a <;> cases hq : q a <;> simp_all
    omega

theorem PropertyRegistry.get?_of_kindOf {r : PropertyRegistry} {t : PropertyTemplate} {k : PropertyKind}
    (hk : r.kindOf t = .ok k) : r.get? t.tag = some k := by
  unfold kindOf at hk
  split at hk
  · cases hk
    assumption
  · cases hk

/-- on a board and a store as any run leaves them: the count, and the cards that show the property as empty -/
theorem Gallery.counted_iff_legible {r : PropertyRegistry} {b : Board} {s : Store} {id : String} {u : PropertyTemplate}
    {k : PropertyKind} (hs : s.Obeys fun _ v => v.Stored) (hu : b.template? id = some u) (hk : r.kindOf u = .ok k)
    (hc : k.supports .countEmpty = true) :
    s.listed.countP (fun c => Calculation.isEmpty (c.property? id)) ≤ s.listed.countP (showsEmpty r b id) ∧
    (s.listed.countP (fun c => Calculation.isEmpty (c.property? id)) = s.listed.countP (showsEmpty r b id) ↔
      ∀ c ∈ s.listed, k.Legible (c.property? id)) := by
  have hshows : ∀ c : Card, showsEmpty r b id c = true ↔ k.display? (c.property? id) u b.members = none := fun c =>
    showsEmpty_iff hu (PropertyRegistry.get?_of_kindOf hk) hc
  have hcounted : ∀ c ∈ s.listed, Calculation.isEmpty (c.property? id) = true → showsEmpty r b id c = true :=
    fun c _ he => (hshows c).2 (PropertyKind.display?_of_isEmpty hc he)
  refine ⟨List.countP_mono_left hcounted, ?_⟩
  rw [countP_eq_iff hcounted]
  refine forall₂_congr fun c hmem => ?_
  have hstored : ∀ v ∈ c.property? id, v.Stored := hs c.id c (Store.card?_of_listed hmem) id
  rw [hshows, ← PropertyKind.not_legible_iff hc hstored, Classical.not_not]

namespace Traffic

/-- **Empty as counted and empty as shown.** In every reachable state, for every template whose type offers the count,
the count and each card are answered. The count is at most the number of cards that show the property as empty, and
equal to it exactly when what is stored is legible to the type on every card; so after every run in which each
identifier keeps to one form of values and no option or person has a blank identifier. -/
theorem countEmpty_iff_legible (w : AppWorld) (es : List Event) {id : String} {u : PropertyTemplate} {k : PropertyKind}
    (hu : (new.run w es).app.board.template? id = some u) (hk : w.properties.kindOf u = .ok k)
    (hc : k.supports .countEmpty = true) :
    ∃ n, (new.run w es).Answers w (.calculate id .countEmpty) (.result (.count n)) ∧
      (∀ c ∈ (new.run w es).app.store.listed, (new.run w es).Answers w (.getCard c.id)
        (.shownCard c (Gallery.renderContents w.content (new.run w es).app.store c.id)
          (Gallery.renderProperties w.properties (new.run w es).app.board c))) ∧
      n ≤ (new.run w es).app.store.listed.countP (Gallery.showsEmpty w.properties (new.run w es).app.board id) ∧
      (n = (new.run w es).app.store.listed.countP (Gallery.showsEmpty w.properties (new.run w es).app.board id) ↔
        ∀ c ∈ (new.run w es).app.store.listed, k.Legible (c.property? id)) ∧
      ∀ form, (∀ c, .arrive c ∈ es → c.Forms w.properties form) →
        n = (new.run w es).app.store.listed.countP (Gallery.showsEmpty w.properties (new.run w es).app.board id) := by
  have hstored : (new.run w es).app.store.Obeys fun _ v => v.Stored := by
    have hminds : ∀ c : Command, c.Minds fun _ => True := fun c => by cases c <;> simp [Command.Minds]
    exact ((ruled_new trivial).run w.teaches_stored es fun c _ => hminds c).history.store
  obtain ⟨hle, hiff⟩ := Gallery.counted_iff_legible hstored hu hk hc
  refine ⟨_, ?_, fun c hmem => answers_getCard (Store.card?_of_listed hmem), hle, hiff, fun form hforms => hiff.2 ?_⟩
  · have hanswer := answers_calculate hu hk hc
    rwa [Calculation.compute, List.countP_map] at hanswer
  · have hnew : Board.Formed w.properties form .empty := ⟨by simp [Board.empty], by simp [Board.empty]⟩
    have hruled := (ruled_new hnew).run (w.teaches_fits form) es fun c hmem => (hforms c hmem).minds
    have hid : u.id = id := by simpa using List.find?_some hu
    have hform : k.form = form id := hid ▸ (hruled.board.templates u (List.mem_of_find?_eq_some hu)).1 k hk
    intro c hmem
    exact PropertyKind.legible_of_fits hc (hform ▸ hruled.history.store c.id c (Store.card?_of_listed hmem) id)

/-- a selection, and its option -/
def pick (tag : String) : PropertyTemplate := ⟨"p", "Pick", tag, [⟨"o", "One", ""⟩]⟩

def picked : Card := { Card.fresh ⟨2⟩ .nil "a" with properties := .ofList [("p", .string "o")] }

def unpicked : Card := .fresh ⟨3⟩ .nil "b"

def chosen : List Event :=
  [.arrive (.putTemplate (pick "select")), .step 0 ⟨0, ⟨1⟩, .nil⟩, .arrive (.createCard (some "a") none),
    .step 1 ⟨0, ⟨2⟩, .nil⟩, .arrive (.createCard (some "b") none), .step 2 ⟨0, ⟨3⟩, .nil⟩,
    .arrive (.setProperty ⟨2⟩ "p" "One"), .step 3 ⟨0, ⟨4⟩, .nil⟩, .step 3 ⟨0, ⟨5⟩, .nil⟩, .step 3 ⟨0, ⟨6⟩, .nil⟩,
    .step 3 ⟨0, ⟨7⟩, .nil⟩]

theorem chosen_counts_all :
    (∀ c, .arrive c ∈ chosen → c.Forms (AppWorld.ofConfig .default).properties fun _ => .text) ∧
    (new.run (.ofConfig .default) chosen).app.store.listed = [picked, unpicked] ∧
    ∃ n, (new.run (.ofConfig .default) chosen).Answers (.ofConfig .default) (.calculate "p" .countEmpty)
      (.result (.count n)) ∧ n = 1 := by
  have hforms : ∀ c, .arrive c ∈ chosen → c.Forms (AppWorld.ofConfig .default).properties fun _ => .text := by
    have hkind : (AppWorld.ofConfig .default).properties.kindOf (pick "select") = .ok .select := rfl
    have hpick : (pick "select").Formed (AppWorld.ofConfig .default).properties fun _ => .text := by
      refine ⟨fun k hk => ?_, by simp [PropertyTemplate.NoBlanks, pick]; decide⟩
      obtain rfl := Except.ok.inj (hkind.symm.trans hk)
      rfl
    intro c hc
    simp only [chosen, List.mem_cons, List.not_mem_nil, or_false, Event.arrive.injEq, reduceCtorEq, false_or] at hc
    rcases hc with rfl | rfl | rfl | rfl
    · exact hpick
    all_goals trivial
  have hlisted : (new.run (.ofConfig .default) chosen).app.store.listed = [picked, unpicked] :=
    List.mergeSort_of_pairwise (l := [picked, unpicked]) (by decide)
  have hu : (new.run (.ofConfig .default) chosen).app.board.template? "p" = some (pick "select") := rfl
  obtain ⟨n, hanswer, -, -, -, hsame⟩ := countEmpty_iff_legible (.ofConfig .default) chosen hu (k := .select) rfl rfl
  rw [hlisted] at hsame
  exact ⟨hforms, hlisted, n, hanswer, (hsame _ hforms).trans rfl⟩

/-- the same template, now a multiple selection -/
def retyped : List Event := chosen ++ [.arrive (.putTemplate (pick "multiSelect")), .step 4 ⟨0, ⟨8⟩, .nil⟩]

/-- a template of another type: both cards show the property as empty, and one is counted -/
theorem retyped_counts_less : (new.run (.ofConfig .default) retyped).app.store.listed = [picked, unpicked] ∧
    (new.run (.ofConfig .default) retyped).Answers (.ofConfig .default) (.calculate "p" .countEmpty)
      (.result (.count 1)) ∧
    ∀ c ∈ [picked, unpicked], (new.run (.ofConfig .default) retyped).Answers (.ofConfig .default) (.getCard c.id)
      (.shownCard c [] [⟨"p", "Pick", ⟨.display, .empty⟩⟩]) := by
  have hlisted : (new.run (.ofConfig .default) retyped).app.store.listed = [picked, unpicked] :=
    List.mergeSort_of_pairwise (l := [picked, unpicked]) (by decide)
  have hu : (new.run (.ofConfig .default) retyped).app.board.template? "p" = some (pick "multiSelect") := rfl
  have hoffered : PropertyKind.multiSelect.supports .countEmpty = true := rfl
  have hcount := answers_calculate (w := .ofConfig .default) hu rfl hoffered
  rw [hlisted] at hcount
  refine ⟨hlisted, hcount, fun c hc => ?_⟩
  simp only [List.mem_cons, List.not_mem_nil, or_false] at hc
  rcases hc with rfl | rfl
  · have hpicked : (new.run (.ofConfig .default) retyped).app.store.card? picked.id = some picked := rfl
    exact answers_getCard hpicked
  · have hunpicked : (new.run (.ofConfig .default) retyped).app.store.card? unpicked.id = some unpicked := rfl
    exact answers_getCard hunpicked

end Traffic

end Corkboard
