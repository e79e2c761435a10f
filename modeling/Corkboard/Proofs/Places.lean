/-
Places in a list.

Calls and queries are known by their places: a new one goes to the end, and a step replaces what stands at one place.
-/
namespace Corkboard.Places

variable {α : Type} {l : List α} {a b : α} {i j : Nat}

/-- after one more at the end: an old entry at its old place, or the new one at the end -/
theorem getElem?_concat_eq_some_iff : (l ++ [a])[i]? = some b ↔ l[i]? = some b ∨ (i = l.length ∧ b = a) := by
  rw [List.getElem?_append]
  split
  · rename_i hlt
    simp [Nat.ne_of_lt hlt]
  · rename_i hge
    rw [List.getElem?_singleton, List.getElem?_eq_none (l := l) (Nat.le_of_not_lt hge)]
    by_cases hi : i = l.length
    · simp [hi, eq_comm]
    · simp [hi, show i - l.length ≠ 0 by omega]

/-- after one replaced: the new entry at its place, or an old one at another -/
theorem getElem?_set_eq_some_iff (hi : i < l.length) :
    (l.set i a)[j]? = some b ↔ (j = i ∧ b = a) ∨ (j ≠ i ∧ l[j]? = some b) := by
  by_cases hj : j = i
  · subst hj
    simp [List.getElem?_set_self hi, eq_comm]
  · simp [List.getElem?_set_ne (Ne.symm hj), hj]

theorem mem_set_or_eq (hi : l[i]? = some b) {x : α} (hx : x ∈ l) (a : α) : x ∈ l.set i a ∨ x = b := by
  obtain ⟨j, hj⟩ := List.mem_iff_getElem?.1 hx
  by_cases he : j = i
  · subst he
    exact .inr (Option.some.inj (hj.symm.trans hi))
  · exact .inl (List.mem_iff_getElem?.2 ⟨j, by rw [List.getElem?_set_ne (Ne.symm he), hj]⟩)

theorem mem_set_self (hi : l[i]? = some b) (a : α) : a ∈ l.set i a := by
  obtain ⟨hlt, -⟩ := List.getElem?_eq_some_iff.1 hi
  exact List.mem_iff_getElem?.2 ⟨i, List.getElem?_set_self hlt⟩

end Corkboard.Places
