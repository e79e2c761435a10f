/-
Cards found by their titles.

A search compares the query with every title, both in lower case. Are all cards found whose titles hold the query as it
was typed? A capital sigma has two small forms, so a query and the same characters within a title may come out
differently.

- `listed_inOrder`: cards are listed by title and identifier, none twice, and a search keeps to that order.
- `mem_search_of_sameEnds`: a card is found by a part of its title whose capital sigmas end words in the title where
  they end words in the query.
- `answers_search`: a request by itself answers with what the search of its trimmed query finds.
- `literal_matches_found_iff`: which queries find, among any cards, all titles that hold them. `word_beginning_missed`
  is the beginning of a word that does not find the word.
-/
import Corkboard.Proofs.Api.Empties
import Corkboard.Proofs.Text.Cuts
import Corkboard.Proofs.Text.WordEnds
import Mathlib.Data.String.Basic

namespace Corkboard

/-! ## The order of cards -/

/-- one card comes before another one: by title, and by identifier where the titles are the same -/
def Card.ComesBefore (a b : Card) : Prop := a.title < b.title ∨ (a.title = b.title ∧ compare a.id b.id = .lt)

namespace Store

variable {s : Store} {a b c : Card} {query : String} {before after : List Char}

theorem listedBefore_iff : listedBefore a b = true ↔
    a.title < b.title ∨ (a.title = b.title ∧ (compare a.id b.id).isLE = true) := by
  rw [listedBefore]
  rcases lt_trichotomy a.title b.title with hlt | heq | hgt
  · simp [compare_lt_iff_lt.2 hlt, hlt]
  · simp [heq]
  · simp [compare_gt_iff_gt.2 hgt, not_lt_of_gt hgt, ne_of_gt hgt]

theorem listedBefore_total (a b : Card) : (listedBefore a b || listedBefore b a) = true := by
  rw [Bool.or_eq_true, listedBefore_iff, listedBefore_iff]
  rcases lt_trichotomy a.title b.title with hlt | heq | hgt
  · exact .inl (.inl hlt)
  · rcases hid : compare a.id b.id with _ | _ | _
    · exact .inl (.inr ⟨heq, rfl⟩)
    · exact .inl (.inr ⟨heq, rfl⟩)
    · exact .inr (.inr ⟨heq.symm, by rw [Std.OrientedOrd.eq_swap, hid]; rfl⟩)
  · exact .inr (.inl hgt)

theorem listedBefore_trans (a b c : Card) (hab : listedBefore a b = true) (hbc : listedBefore b c = true) :
    listedBefore a c = true := by
  rw [listedBefore_iff] at *
  rcases hab with hab | ⟨hab, hid⟩ <;> rcases hbc with hbc | ⟨hbc, hid'⟩
  · exact .inl (hab.trans hbc)
  · exact .inl (hbc ▸ hab)
  · exact .inl (hab ▸ hbc)
  · exact .inr ⟨hab.trans hbc, Std.TransCmp.isLE_trans hid hid'⟩

theorem ids_listed (s : Store) : s.listed.Pairwise fun a b => a.id ≠ b.id := by
  have hvalues : s.cards.values.Pairwise fun a b => a.id ≠ b.id := by
    refine List.pairwise_map.2 (s.cards.rising.imp_of_mem fun {d e} hd he hlt hid => ?_)
    rw [s.cardKeys d.1 d.2 ((s.cards.get?_eq_some_iff d.1 d.2).2 hd),
      s.cardKeys e.1 e.2 ((s.cards.get?_eq_some_iff e.1 e.2).2 he)] at hid
    rw [hid, Std.ReflOrd.compare_self] at hlt
    cases hlt
  exact (List.mergeSort_perm _ _).symm.pairwise hvalues fun h => h.symm

/-- **The order of cards.** They are listed by title, and by identifier where titles are the same, so none is listed
twice. -/
theorem listed_inOrder (s : Store) : s.listed.Pairwise Card.ComesBefore := by
  have hsorted : s.listed.Pairwise fun a b => listedBefore a b = true :=
    List.pairwise_mergeSort listedBefore_trans listedBefore_total _
  refine (hsorted.and s.ids_listed).imp fun {a b} ⟨hbefore, hids⟩ => ?_
  rcases listedBefore_iff.1 hbefore with htitle | ⟨htitle, hid⟩
  · exact .inl htitle
  · rcases hcompare : compare a.id b.id with _ | _ | _
    · exact .inr ⟨htitle, hcompare⟩
    · exact absurd (Std.compare_eq_iff_eq.1 hcompare) hids
    · rw [hcompare] at hid
      cases hid

/-! ## What is found -/

theorem mem_search_iff : c ∈ s.search query ↔
    s.card? c.id = some c ∧ Text.lowerFrom [] query.toList <:+: Text.lowerFrom [] c.title.toList := by
  rw [search, List.mem_filter, Text.occursIn_iff, Text.lower, Text.lower, String.toList_ofList, String.toList_ofList]
  exact and_congr_left' ⟨card?_of_listed, mem_listed⟩

theorem search_inOrder (s : Store) (query : String) : (s.search query).Pairwise Card.ComesBefore :=
  s.listed_inOrder.sublist List.filter_sublist

/-- a card is found by a part of its title that ends the same words by itself -/
theorem mem_search_of_sameEnds (hc : s.card? c.id = some c) (htitle : c.title.toList = before ++ query.toList ++ after)
    (hends : Text.SameEnds query.toList [] [] before.reverse after) : c ∈ s.search query := by
  rw [mem_search_iff, htitle]
  exact ⟨hc, Text.lower_infix hends⟩

def titled (title : String) : Store := empty.putCard (.fresh .nil .nil title)

theorem card?_titled (title : String) : (titled title).card? Uuid.nil = some (.fresh .nil .nil title) :=
  (card?_putCard ..).trans (if_pos rfl)

/-- a query finds all titles that hold it exactly if it decides where its words end -/
theorem finds_literal_iff : (∀ (s : Store) (c : Card), s.card? c.id = some c → query.toList <:+: c.title.toList →
    c ∈ s.search query) ↔ ¬ Text.Undecided query.toList := by
  rw [← Text.lower_infix_iff]
  constructor
  · intro hall text htext
    have htitle : (Card.fresh .nil .nil (.ofList text)).title.toList = text := String.toList_ofList
    have hmem := hall (titled (.ofList text)) (.fresh .nil .nil (.ofList text)) (card?_titled _) (htitle.symm ▸ htext)
    exact htitle ▸ (mem_search_iff.1 hmem).2
  · intro hall s c hc htitle
    exact mem_search_iff.2 ⟨hc, hall _ htitle⟩

end Store

/-! ## A search by itself -/

namespace RequestPhase

/-- where a search stands after so many steps by itself; `g` is its generation -/
def searchStage (g : Nat) (text : String) (items : List Card) : Nat → RequestPhase
  | 0 => start (.search text)
  | 1 => search text (.waiting g (Text.trim text))
  | 2 => search text (.searching g (Text.trim text))
  | 3 => search text (.publishing g (Text.trim text) items)
  | _ => done (.found (Text.trim text) items)

/-- the cards are as they were, and the search is the newest one once it was issued -/
def Searches (s : Store) (g n : Nat) (a : App) : Prop :=
  a.store = s ∧ a.search.generation + (if n = 0 then 1 else 0) = g

theorem step_searchStage (w : AppWorld) (m : Ambient) (name : Nat) {s : Store} {g : Nat} {text : String} {a : App}
    (htext : Text.trim text ≠ "") (n : Nat) (ha : Searches s g n a) :
    ∃ a', (searchStage g text (s.search (Text.trim text)) n).step w m name a =
      (a', searchStage g text (s.search (Text.trim text)) (n + 1)) ∧ Searches s g (n + 1) a' := by
  obtain ⟨rfl, hg⟩ := ha
  match n with
  | 0 =>
    have hissued : a.search.generation + 1 = g := hg
    subst hissued
    refine ⟨{ a with search := { a.search with generation := a.search.generation + 1 } }, ?_, rfl, rfl⟩
    simp only [searchStage, step, begin, QueryPhase.step, if_neg htext]
  | 1 =>
    have hnewest : a.search.generation = g := hg
    refine ⟨a, ?_, rfl, hg⟩
    simp only [searchStage, step, QueryPhase.step, if_pos hnewest]
  | 2 => exact ⟨a, rfl, rfl, hg⟩
  | 3 =>
    have hnewest : a.search.generation = g := hg
    refine ⟨{ a with search := { a.search with latest := some ⟨Text.trim text, a.store.search (Text.trim text)⟩ } }, ?_,
      rfl, hg⟩
    simp only [searchStage, step, QueryPhase.step, if_pos hnewest]
  | n + 4 => exact ⟨a, rfl, rfl, hg⟩

end RequestPhase

namespace Traffic

variable {w : AppWorld} {u : Traffic} {raw : String}

theorem answers_search (hraw : Text.trim raw ≠ "") :
    u.Answers w (.search raw) (.found (Text.trim raw) (u.app.store.search (Text.trim raw))) := by
  refine ⟨4, fun ms hlength => ?_⟩
  obtain ⟨hphase, -⟩ := serve_passes (c := .search raw) rfl
    (fun n m _ ha => RequestPhase.step_searchStage w m u.requests.length hraw n ha) ⟨rfl, rfl⟩ ms
  obtain ⟨k, hk⟩ := Nat.exists_eq_add_of_le' hlength
  rw [hphase, hk]
  rfl

/-- **Titles that hold the query.** A search that is not blank, and that no other one overtakes, answers with the cards
that its trimmed query finds: cards of the board by title and identifier, none twice. A card is among them if the query
is a part of its title and ends a word at the same capital sigmas there. Among any cards all whose titles hold the query
are found, exactly if the query decides the small forms of its capital sigmas by itself. -/
theorem literal_matches_found_iff (w : AppWorld) (hraw : Text.isBlank raw = false) :
    (∀ u : Traffic, u.Answers w (.search raw) (.found (Text.trim raw) (u.app.store.search (Text.trim raw)))) ∧
    (∀ s : Store, (s.search (Text.trim raw)).Pairwise Card.ComesBefore ∧ ((s.search (Text.trim raw)).map (·.id)).Nodup ∧
      (∀ c ∈ s.search (Text.trim raw), s.card? c.id = some c) ∧
      ∀ c before after, s.card? c.id = some c → c.title.toList = before ++ (Text.trim raw).toList ++ after →
        Text.SameEnds (Text.trim raw).toList [] [] before.reverse after → c ∈ s.search (Text.trim raw)) ∧
    ((∀ (s : Store) (c : Card), s.card? c.id = some c → (Text.trim raw).toList <:+: c.title.toList →
        c ∈ s.search (Text.trim raw)) ↔ ¬ Text.Undecided (Text.trim raw).toList) := by
  have htrim : Text.trim raw ≠ "" := Text.trim_ne_empty hraw
  refine ⟨fun u => answers_search htrim, fun s => ⟨s.search_inOrder _, ?_, fun c hc => ?_, fun c before after => ?_⟩,
    Store.finds_literal_iff⟩
  · exact List.pairwise_map.2 (s.ids_listed.sublist List.filter_sublist)
  · exact (Store.mem_search_iff.1 hc).1
  · exact Store.mem_search_of_sameEnds

theorem inner_sigma_found : Text.isBlank "\tΟΣΟ " = false ∧ ¬ Text.Undecided (Text.trim "\tΟΣΟ ").toList ∧
    (Store.titled "ΠΟΣΟΣΤΟ").card? .nil = some (.fresh .nil .nil "ΠΟΣΟΣΤΟ") ∧
    (Text.trim "\tΟΣΟ ").toList <:+: "ΠΟΣΟΣΤΟ".toList ∧
    Card.fresh .nil .nil "ΠΟΣΟΣΤΟ" ∈ (Store.titled "ΠΟΣΟΣΤΟ").search "ΟΣΟ" := by
  have hraw : Text.isBlank "\tΟΣΟ " = false := by decide
  have hdecided : ¬ Text.Undecided (Text.trim "\tΟΣΟ ").toList := by decide +kernel
  have htitle : (Text.trim "\tΟΣΟ ").toList <:+: "ΠΟΣΟΣΤΟ".toList := by decide
  obtain ⟨-, -, hfound⟩ := literal_matches_found_iff (.ofConfig .default) hraw
  exact ⟨hraw, hdecided, Store.card?_titled _, htitle, hfound.2 hdecided _ _ (Store.card?_titled _) htitle⟩

/-- a card for a word with two capital sigmas within it and one at its end -/
def odyssey : Card := .fresh ⟨1⟩ .nil "ΟΔΥΣΣΕΑΣ"

def voyage : Traffic :=
  new.run (.ofConfig .default) [.arrive (.createCard (some "ΟΔΥΣΣΕΑΣ") none), .step 0 ⟨0, ⟨1⟩, .nil⟩]

/-- the beginning of a word does not find the word: by itself it ends with a capital sigma -/
theorem word_beginning_missed : Text.isBlank "ΟΔΥΣ" = false ∧ voyage.app.store.card? odyssey.id = some odyssey ∧
    "ΟΔΥΣ".toList <:+: odyssey.title.toList ∧
      voyage.Answers (.ofConfig .default) (.search "ΟΔΥΣ") (.found "ΟΔΥΣ" []) := by
  have hraw : Text.isBlank "ΟΔΥΣ" = false := by decide
  have hlisted : voyage.app.store.listed = [odyssey] := List.mergeSort_of_pairwise (l := [odyssey]) (by decide)
  have hnone : voyage.app.store.search "ΟΔΥΣ" = [] := by
    rw [Store.search, hlisted]
    decide +kernel
  have htrim : Text.trim "ΟΔΥΣ" = "ΟΔΥΣ" := by decide
  have hanswer := answers_search (w := .ofConfig .default) (u := voyage) (Text.trim_ne_empty hraw)
  rw [htrim, hnone] at hanswer
  exact ⟨hraw, rfl, by decide, hanswer⟩

end Traffic

end Corkboard
