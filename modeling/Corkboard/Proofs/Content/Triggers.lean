/-
Which type a text selects.

A text selects a type when it opens with the type's trigger, and it may still become one as long as it is the strict
beginning of a trigger or a command. Both are read here in terms of the characters: `opens_iff`,
`byTrigger?_eq_none_iff` and `isSubPrefix_iff` say when, `append_seedOf` what is left of the text, and
`byTrigger?_congr` that the policy looks at nothing but the types whose trigger the text opens with.
-/
import Corkboard.Editor
import Mathlib.Data.List.Nodup

namespace Corkboard

/-- the text selects the type, as its trigger or as its command -/
def Handler.Selects (h : Handler) (t : String) : Prop := h.trigger = some t ∨ h.slashCommand = some t

namespace ContentRegistry

variable {r : ContentRegistry} {h : Handler} {hs : List Handler} {text : String}

/-! ## Tags -/

theorem tag_of_get? {tag : String} (hget : r.get? tag = some h) : h.tag = tag := Registry.tag_of_get? hget

theorem mem_of_get? {tag : String} (hget : r.get? tag = some h) : h ∈ r.list := by
  obtain rfl := tag_of_get? hget
  exact Registry.mem_entries_iff.2 hget

theorem get?_tag (hmem : h ∈ r.list) : r.get? h.tag = some h := Registry.mem_entries_iff.1 hmem

/-! ## Triggers -/

theorem opens_iff : opens text h = true ↔ ∃ t, h.trigger = some t ∧ t ≠ "" ∧ t.toList <+: text.toList := by
  simp [opens, Text.opensWith, Option.any_eq_true]

theorem mem_of_longest (hl : longest hs = some h) : h ∈ hs := by
  induction hs generalizing h with
  | nil => cases hl
  | cons a hs ih =>
    simp only [longest] at hl
    cases hb : longest hs with
    | none =>
      rw [hb] at hl
      cases hl
      exact List.mem_cons_self
    | some b =>
      simp only [hb] at hl
      split at hl
      · cases hl
        exact List.mem_cons_of_mem _ (ih hb)
      · cases hl
        exact List.mem_cons_self

theorem longest_eq_none_iff : longest hs = none ↔ hs = [] := by
  cases hs with
  | nil => exact iff_of_true rfl rfl
  | cons a hs =>
    simp only [longest, reduceCtorEq, iff_false]
    split
    · split <;> exact Option.some_ne_none _
    · exact Option.some_ne_none _

/-- the policy only chooses among the types whose trigger the text opens with -/
theorem byTrigger?_congr {text' : String} (hsame : ∀ h ∈ r.list, opens text h = opens text' h) :
    r.byTrigger? text = r.byTrigger? text' := by
  simp only [byTrigger?, List.filter_congr hsame]

theorem opens_of_byTrigger? (hb : r.byTrigger? text = some h) : h ∈ r.list ∧ opens text h = true := by
  have hmem : h ∈ r.list.filter (opens text) := by
    simp only [byTrigger?] at hb
    split at hb
    · exact List.mem_of_head? hb
    · exact mem_of_longest hb
  exact List.mem_filter.1 hmem

theorem byTrigger?_eq_none_iff : r.byTrigger? text = none ↔ ∀ h ∈ r.list, ¬ opens text h = true := by
  rw [← List.filter_eq_nil_iff]
  simp only [byTrigger?]
  split
  · exact List.head?_eq_none_iff
  · exact longest_eq_none_iff

/-- no text opens the empty one -/
theorem byTrigger?_empty : r.byTrigger? "" = none := by
  refine byTrigger?_eq_none_iff.2 fun h _ ho => ?_
  obtain ⟨t, -, hne, hpre⟩ := opens_iff.1 ho
  exact hne (String.toList_injective (List.prefix_nil.1 hpre))

theorem append_seedOf (ho : opens text h = true) :
    ∃ t, h.trigger = some t ∧ t ≠ "" ∧ text = t ++ Editor.seedOf h text := by
  obtain ⟨t, ht, hne, hpre⟩ := opens_iff.1 ho
  have hdrop : Text.dropOpening? t text = some (.ofList (text.toList.drop t.toList.length)) := by
    rw [Text.dropOpening?, if_pos (List.isPrefixOf_iff_prefix.2 hpre)]
  have hseed : Editor.seedOf h text = .ofList (text.toList.drop t.toList.length) := by
    simp [Editor.seedOf, ht, hdrop]
  exact ⟨t, ht, hne, hseed ▸ Text.append_of_dropOpening? hdrop⟩

/-! ## Beginnings of triggers and commands -/

theorem isSubPrefix_iff : r.isSubPrefix text = true ↔ text ≠ "" ∧ ∃ h ∈ r.list, ∃ t, h.Selects t ∧
    text.toList <+: t.toList ∧ text.length < t.length := by
  simp only [isSubPrefix, Bool.and_eq_true, List.any_eq_true, Option.any_eq_true, decide_eq_true_eq, List.mem_cons,
    List.not_mem_nil, or_false, Text.opensWith, List.isPrefixOf_iff_prefix, Handler.Selects]
  constructor
  · intro hs
    obtain ⟨hne, h, hmem, o, ho, t, ht, hpre, hlt⟩ := hs
    refine ⟨hne, h, hmem, t, ?_, hpre, hlt⟩
    rcases ho with rfl | rfl
    · exact .inl ht
    · exact .inr ht
  · intro hs
    obtain ⟨hne, h, hmem, t, ht, hpre, hlt⟩ := hs
    rcases ht with ht | ht
    · exact ⟨hne, h, hmem, _, .inl rfl, t, ht, hpre, hlt⟩
    · exact ⟨hne, h, hmem, _, .inr rfl, t, ht, hpre, hlt⟩

end ContentRegistry

end Corkboard
