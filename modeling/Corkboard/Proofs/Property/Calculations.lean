/-
What a calculation makes of the order and of the parts of its slots.

The slots of a property come in the order in which the cards are listed, by title, so a card that is renamed moves among
them. Which calculations could tell? And what does a calculation over two groups of cards have to do with those over
either group?

- `eraseDups_nodup`, `eraseDups_length`: the unique texts are as many as the set of the texts has elements, so nothing
  about them depends on an order.
- `mergeSort_of_perm`: doubles have only one sorted order, as no two of them have one rank.
- `compute_perm`: all calculations but those that add up numbers or fold them are blind to the order of the slots.
- `length_split`: a count and the count of the rest make up the slots.
- `values_append`, `unique_append`: the values of two groups add up, and the unique ones lie between those of the larger
  group and the sum.
-/
import Corkboard.Property.Calculation
import Mathlib.Data.Finset.Card
import Mathlib.Data.List.Perm.Basic

namespace Corkboard.Calculation

variable {xs ys : List (Option Json)}

/-! ## Unique texts -/

theorem eraseDups_nodup (texts : List String) : texts.eraseDups.Nodup := by
  cases texts with
  | nil => exact List.nodup_nil
  | cons text rest =>
    rw [List.eraseDups_cons, List.nodup_cons]
    constructor
    · intro hmem
      obtain ⟨-, hne⟩ := List.mem_filter.1 (List.mem_eraseDups.1 hmem)
      simp at hne
    · exact eraseDups_nodup (rest.filter fun other => !other == text)
termination_by texts.length
decreasing_by exact Nat.lt_succ_of_le (List.length_filter_le _ _)

theorem eraseDups_length (texts : List String) : texts.eraseDups.length = texts.toFinset.card := by
  have hset : texts.eraseDups.toFinset = texts.toFinset := by
    ext text
    rw [List.mem_toFinset, List.mem_toFinset, List.mem_eraseDups]
  rw [← hset, List.toFinset_card_of_nodup (eraseDups_nodup texts)]

/-! ## Order -/

theorem mergeSort_of_perm {ps qs : List Double} (h : ps.Perm qs) :
    ps.mergeSort Double.totalLe = qs.mergeSort Double.totalLe := by
  have htrans : ∀ x y z : Double, x.totalLe y = true → y.totalLe z = true → x.totalLe z = true := by
    intro x y z hxy hyz
    exact Double.totalLe_trans hxy hyz
  have hsorted : ∀ rs : List Double, (rs.mergeSort Double.totalLe).Pairwise fun x y => x.totalLe y = true := by
    intro rs
    exact List.pairwise_mergeSort htrans Double.totalLe_total rs
  have hperm : (ps.mergeSort Double.totalLe).Perm (qs.mergeSort Double.totalLe) :=
    (List.mergeSort_perm ps _).trans (h.trans (List.mergeSort_perm qs _).symm)
  exact hperm.eq_of_pairwise (fun _ _ _ _ => Double.eq_of_totalLe) (hsorted ps) (hsorted qs)

/-- the calculations that only count slots or values, and the median -/
def orderless : List Calculation :=
  [none, count, countEmpty, countNotEmpty, percentEmpty, percentNotEmpty, countValue, countUniqueValue, countChecked,
    countUnchecked, percentChecked, percentUnchecked, median]

/-- **Order.** These calculations give the same on the same slots in another order. -/
theorem compute_perm {c : Calculation} (hc : c ∈ orderless) (h : xs.Perm ys) : c.compute xs = c.compute ys := by
  have hlength : xs.length = ys.length := h.length_eq
  have hempty : xs.countP isEmpty = ys.countP isEmpty := h.countP_eq isEmpty
  have hchecked : xs.countP isChecked = ys.countP isChecked := h.countP_eq isChecked
  have hvalues : (valueTexts xs).Perm (valueTexts ys) := h.flatMap_right slotTexts
  cases c with
  | none => rfl
  | count | countEmpty | countNotEmpty | percentEmpty | percentNotEmpty => simp only [compute, hlength, hempty]
  | countChecked | countUnchecked | percentChecked | percentUnchecked => simp only [compute, hlength, hchecked]
  | countValue => simp only [compute, hvalues.length_eq]
  | countUniqueValue =>
    have hset : (valueTexts xs).toFinset = (valueTexts ys).toFinset := List.toFinset_eq_of_perm _ _ hvalues
    simp only [compute, eraseDups_length, hset]
  | median =>
    have hnumbers : (numbers xs).Perm (numbers ys) := h.filterMap slotNumber
    have hsorted := mergeSort_of_perm hnumbers
    simp only [compute, medianOf, hsorted]
  | sum | average | min | max | range => exact absurd hc (by decide)

/-- what is left are the calculations that fold the numbers one by one -/
example : all.filter (· ∉ orderless) = [sum, average, min, max, range] := by decide

/-! ## Parts -/

/-- the slots that pass a test and the rest, as it is counted, are all of them -/
theorem length_split (p : Option Json → Bool) (xs : List (Option Json)) :
    xs.countP p + (xs.length - xs.countP p) = xs.length := by
  have hle : xs.countP p ≤ xs.length := List.countP_le_length
  omega

theorem valueTexts_append (xs ys : List (Option Json)) : valueTexts (xs ++ ys) = valueTexts xs ++ valueTexts ys :=
  List.flatMap_append

/-- the unique texts of two lists lie between those of the larger and the sum -/
theorem unique_append (texts more : List String) :
    Nat.max texts.eraseDups.length more.eraseDups.length ≤ (texts ++ more).eraseDups.length ∧
      (texts ++ more).eraseDups.length ≤ texts.eraseDups.length + more.eraseDups.length := by
  have hunion : (texts ++ more).toFinset = texts.toFinset ∪ more.toFinset := List.toFinset_append
  rw [eraseDups_length, eraseDups_length, eraseDups_length, hunion]
  refine ⟨Nat.max_le.2 ⟨?_, ?_⟩, Finset.card_union_le _ _⟩
  · exact Finset.card_le_card Finset.subset_union_left
  · exact Finset.card_le_card Finset.subset_union_right

/-- **Rearranged and split.** The median, and every calculation that only counts, gives the same on the same slots in
any order. The empty slots and the others make up all slots, and so do the checked ones and the others, so the counts of
the others and their shares are never cut off at zero. The values of two lists of slots add up. The unique ones of both
are at least as many as those of either, at most as many as those of both together, and never more than the values. -/
theorem slots_rearranged_and_split (xs ys : List (Option Json)) :
    (xs.Perm ys → ∀ c ∈ orderless, c.compute xs = c.compute ys) ∧
      (∃ empty filled, countEmpty.compute xs = .count empty ∧ countNotEmpty.compute xs = .count filled ∧
        count.compute xs = .count (empty + filled) ∧
        percentNotEmpty.compute xs = .percent (percentOf filled (empty + filled))) ∧
      (∃ checked unchecked, countChecked.compute xs = .count checked ∧ countUnchecked.compute xs = .count unchecked ∧
        count.compute xs = .count (checked + unchecked) ∧
        percentUnchecked.compute xs = .percent (percentOf unchecked (checked + unchecked))) ∧
      (∃ m n, countValue.compute xs = .count m ∧ countValue.compute ys = .count n ∧
        countValue.compute (xs ++ ys) = .count (m + n)) ∧
      (∃ m n both, countUniqueValue.compute xs = .count m ∧ countUniqueValue.compute ys = .count n ∧
        countUniqueValue.compute (xs ++ ys) = .count both ∧ Nat.max m n ≤ both ∧ both ≤ m + n) ∧
      ∀ slots, ∃ unique values, countUniqueValue.compute slots = .count unique ∧
        countValue.compute slots = .count values ∧ unique ≤ values := by
  have hcount : ∀ p, count.compute xs = .count (xs.countP p + (xs.length - xs.countP p)) := by
    intro p
    exact congrArg CalculationResult.count (length_split p xs).symm
  have hshare : ∀ p, CalculationResult.percent (percentOf (xs.length - xs.countP p) xs.length) =
      .percent (percentOf (xs.length - xs.countP p) (xs.countP p + (xs.length - xs.countP p))) := by
    intro p
    rw [length_split p xs]
  refine ⟨fun h c hc => compute_perm hc h, ?_, ?_, ?_, ?_, ?_⟩
  · exact ⟨_, _, rfl, rfl, hcount isEmpty, hshare isEmpty⟩
  · exact ⟨_, _, rfl, rfl, hcount isChecked, hshare isChecked⟩
  · have hvalues : (valueTexts (xs ++ ys)).length = (valueTexts xs).length + (valueTexts ys).length := by
      rw [valueTexts_append, List.length_append]
    exact ⟨_, _, rfl, rfl, congrArg CalculationResult.count hvalues⟩
  · have hunique := unique_append (valueTexts xs) (valueTexts ys)
    rw [← valueTexts_append] at hunique
    exact ⟨_, _, _, rfl, rfl, rfl, hunique⟩
  · intro slots
    refine ⟨_, _, rfl, rfl, ?_⟩
    calc (valueTexts slots).eraseDups.length = (valueTexts slots).toFinset.card := eraseDups_length _
      _ ≤ (valueTexts slots).length := List.toFinset_card_le _

/-- numbers, choices and a gap -/
def mixed : List (Option Json) :=
  [some (.double .two), some (.array [.string "a", .null, .string "b"]), some (.double .zero), some (.string "a"),
    .none, some (.double .two)]

def ordered : List (Option Json) :=
  [some (.double .zero), some (.double .two), some (.double .two), .none, some (.string "a"),
    some (.array [.string "a", .null, .string "b"])]

theorem mixed_as_ordered : mixed.Perm ordered ∧ countUniqueValue.compute mixed = .count 4 ∧
    median.compute mixed = .number .two := by
  have hperm : mixed.Perm ordered := by decide
  have hsame : ∀ c ∈ orderless, c.compute mixed = c.compute ordered :=
    (slots_rearranged_and_split mixed ordered).1 hperm
  have hunique : countUniqueValue.compute ordered = .count 4 := by decide +kernel
  have hmedian : median.compute ordered = .number .two := by
    have hnumbers : numbers ordered = [.zero, .two, .two] := by decide +kernel
    have hsorted : [Double.zero, .two, .two].mergeSort Double.totalLe = [.zero, .two, .two] :=
      List.mergeSort_of_pairwise (by decide)
    simp only [compute, medianOf, hnumbers, hsorted]
    rfl
  exact ⟨hperm, (hsame _ (by decide)).trans hunique, (hsame _ (by decide)).trans hmedian⟩

end Corkboard.Calculation
