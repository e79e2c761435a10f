/-
What is answered for a card.

A request for a card reads the card in one step and its body in a later one, and the body comes in the order that the
card has by then. Is the body of an answer the body of the card in the same answer?

- `shownCard_consistent_iff`: exactly when the card has the same order at both moments, so always when no addition,
  composition, deletion or move on the card, no undo and no redo takes a step in between.
- `card_read_before_addition`: an answer that shows a card without body next to the body of one block.
-/
import Corkboard.Proofs.Api.Bodies
import Corkboard.Proofs.Api.Orders

namespace Corkboard

namespace Traffic

/-- **A card and its body.** Every answer to a request for a card holds the card as it was at one moment of the run, its
body as it was at a later one, and its properties under the templates of a third. The body is all of the order of its
moment, and it is that of the card in the answer exactly when the order has not changed in between. -/
theorem shownCard_consistent_iff (w : AppWorld) (es : List Event) (hf : Fresh es) {place : Nat} {q : Asked} {c : Card}
    {contents : List RenderedBlock} {properties : List RenderedProperty} (hq : (new.run w es).requests[place]? = some q)
    (hp : q.phase = .done (.shownCard c contents properties)) :
    q.command = .getCard c.id ∧
    ∃ i j k, ReadsAll w es place c contents properties i j k ∧
      contents.map (·.id) = (moment w es j).history.orderOf c.id ∧
      (contents.map (·.id) = c.contentOrder ↔
        (moment w es j).history.orderOf c.id = (moment w es i).history.orderOf c.id) ∧
      ((∀ n other m r, i < n → n < j → es[n]? = some (.step other m) → (moment w es n).requests[other]? = some r →
        ¬ r.command.Reorders c.id) → contents.map (·.id) = c.contentOrder) := by
  have hdated := dated_run w es hq
  simp only [Asked.Dated, hp] at hdated
  obtain ⟨hcommand, i, j, k, hreads⟩ := hdated
  have hbody : contents.map (·.id) = (moment w es j).history.orderOf c.id := by
    rw [hreads.body]
    exact ids_renderContents w _ (hf.take j) c.id
  have horder : c.contentOrder = (moment w es i).history.orderOf c.id := by
    have hcard : (moment w es i).history.store.card? c.id = some c := hreads.card
    rw [History.orderOf, hcard]
    rfl
  have hiff : contents.map (·.id) = c.contentOrder ↔
      (moment w es j).history.orderOf c.id = (moment w es i).history.orderOf c.id := by rw [hbody, horder]
  refine ⟨hcommand, i, j, k, hreads, hbody, hiff, fun hquiet => hiff.2 ?_⟩
  refine orderOf_moment w hf (Nat.le_of_lt hreads.later) (Nat.le_of_lt hreads.bodyStep.lt)
    fun n other m r hin hnj he hr => ?_
  rcases Nat.eq_or_lt_of_le hin with rfl | hin
  · -- the first of these steps is the reading itself
    obtain ⟨m', hm'⟩ := hreads.step
    cases he.symm.trans hm'
    rw [command_moment hq hr, hcommand]
    exact id
  · exact hquiet n other m r hin hnj he hr

/-- a request for a card that has read it before an addition, and reads its body after it -/
def overtaken : List Event :=
  [.arrive (.createCard none none), .step 0 ⟨0, ⟨1⟩, ⟨900⟩⟩, .arrive (.getCard ⟨1⟩),
    .arrive (.addContent ⟨1⟩ "text" none)] ++
  [1, 2, 2, 2, 2, 2, 2, 2, 1, 1].mapIdx fun k place => .step place ⟨k, ⟨.ofNat 128 (k + 2)⟩, .nil⟩

/-- **A card read before an addition.** The answer shows a card without body, and next to it a block. -/
theorem card_read_before_addition : Fresh overtaken ∧ ∃ c contents properties,
    (new.run (.ofConfig .default) overtaken).requests[1]? =
      some ⟨.getCard ⟨1⟩, .done (.shownCard c contents properties)⟩ ∧
    c.contentOrder = [] ∧ contents.map (·.id) = [⟨5⟩] ∧ contents.map (·.id) ≠ c.contentOrder := by
  refine ⟨by decide, ⟨⟨1⟩, ⟨900⟩, "Untitled", [], .empty⟩, [⟨⟨5⟩, "text", ⟨.display, .text ""⟩⟩], [], rfl, rfl, rfl, ?_⟩
  exact List.cons_ne_nil _ _

theorem overtaken_between_readings : ∃ i j, i < j ∧
    (moment (.ofConfig .default) overtaken j).history.orderOf ⟨1⟩ ≠
      (moment (.ofConfig .default) overtaken i).history.orderOf ⟨1⟩ := by
  have hq : (new.run (.ofConfig .default) overtaken).requests[1]? = some ⟨.getCard ⟨1⟩, .done (.shownCard
      ⟨⟨1⟩, ⟨900⟩, "Untitled", [], .empty⟩ [⟨⟨5⟩, "text", ⟨.display, .text ""⟩⟩] [])⟩ := rfl
  obtain ⟨-, i, j, k, hreads, -, hiff, -⟩ := shownCard_consistent_iff (.ofConfig .default) overtaken (by decide) hq rfl
  exact ⟨i, j, hreads.later, fun hsame => List.cons_ne_nil _ _ (hiff.2 hsame)⟩

end Traffic

end Corkboard
