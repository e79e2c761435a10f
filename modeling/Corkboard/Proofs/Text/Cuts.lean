/-
Where a text is cut.

A text is cut at the first place of a mark, and the cut fails when the mark stands nowhere in the text. A mark whose
first character does not occur in a text cannot begin in it, so behind such a text the mark is found where it was put.

- `cutAt_eq_none_iff`, `occursIn_iff`: the search for a mark finds it exactly when it is part of the text.
- `cutAt_append`: the mark behind a text that its first character does not occur in.
- `cutAt_singleton_iff`: a cut at one character, by what is before it and behind it.
-/
import Corkboard.Text.Blank
import Mathlib.Data.List.Infix

namespace Corkboard.Text

variable {m : Char} {p cs a b : List Char}

theorem trim_ne_empty {s : String} (hs : isBlank s = false) : trim s ≠ "" := fun htrim =>
  Bool.false_ne_true (hs.symm.trans ((trim_eq_empty_iff s).1 htrim))

theorem cutAt_eq_none_iff : cutAt p cs = none ↔ ¬ p <:+: cs := by
  induction cs with
  | nil =>
    rw [cutAt, List.infix_nil]
    split <;> simp_all
  | cons c cs ih =>
    rw [cutAt, List.infix_cons_iff, not_or, ← ih, ← List.isPrefixOf_iff_prefix]
    split <;> simp_all

theorem occursIn_iff {p s : String} : occursIn p s = true ↔ p.toList <:+: s.toList := by
  rw [occursIn, Option.isSome_iff_ne_none, ne_eq, cutAt_eq_none_iff, Classical.not_not]

/-- a mark behind a text in which it cannot begin -/
theorem cutAt_append {ms : List Char} (ha : m ∉ a) : cutAt (m :: ms) (a ++ m :: ms ++ b) = some (a, b) := by
  induction a with
  | nil =>
    have hbegins : (m :: ms).isPrefixOf (m :: ms ++ b) = true := List.isPrefixOf_iff_prefix.2 (List.prefix_append _ _)
    rw [List.nil_append, List.cons_append, cutAt, ← List.cons_append, if_pos hbegins, List.drop_left]
  | cons c a ih =>
    obtain ⟨hc, hrest⟩ := List.ne_and_not_mem_of_not_mem_cons ha
    have hbegins : (m :: ms).isPrefixOf (c :: (a ++ m :: ms ++ b)) = false := by simp [List.isPrefixOf, hc]
    rw [List.cons_append, List.cons_append, cutAt, if_neg (by rw [hbegins]; exact Bool.false_ne_true), ih hrest]
    rfl

theorem not_mem_of_cutAt (h : cutAt [m] cs = some (a, b)) : m ∉ a := by
  induction cs generalizing a with
  | nil => simp [cutAt] at h
  | cons c cs ih =>
    rw [cutAt] at h
    split at h
    · obtain ⟨rfl, -⟩ := Prod.mk.inj (Option.some.inj h)
      exact List.not_mem_nil
    · rename_i hbegins
      obtain ⟨⟨a', b'⟩, hcut, he⟩ := Option.map_eq_some_iff.1 h
      obtain ⟨rfl, rfl⟩ := Prod.mk.inj he
      have hc : m ≠ c := by simpa [List.isPrefixOf] using hbegins
      exact List.not_mem_cons_of_ne_of_not_mem hc (ih hcut)

/-- a cut at one character: the text before it has none of them -/
theorem cutAt_singleton_iff : cutAt [m] cs = some (a, b) ↔ cs = a ++ m :: b ∧ m ∉ a := by
  constructor
  · intro h
    have hall : cs = a ++ [m] ++ b := append_of_cutAt h
    exact ⟨by rw [hall, List.append_assoc, List.singleton_append], not_mem_of_cutAt h⟩
  · rintro ⟨rfl, ha⟩
    have hcut : cutAt [m] (a ++ [m] ++ b) = some (a, b) := cutAt_append ha
    rwa [List.append_assoc, List.singleton_append] at hcut

end Corkboard.Text
