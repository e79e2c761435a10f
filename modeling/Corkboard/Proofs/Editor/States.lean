/-
Where an editor can stand.

An editor is at the root with a text, or holds a draft of a type. Neither is arbitrary: the type of a draft is served by
the registry, and a text stays at the root only while no type takes it.

- `stands_after_calls`: so it is after any calls on an editor opened in any way. A draft is handed over from a draft
  only, as it stands.

The invariant is `Stands`, kept by every call.
-/
import Corkboard.Editing
import Corkboard.Proofs.Content.Triggers

namespace Corkboard

/-- a text that no type takes: it opens with no trigger, and it is empty, a command line, the strict beginning of a
trigger or a command, or there is no plain text type -/
structure ContentRegistry.Leaves (r : ContentRegistry) (text : String) : Prop where
  triggers : ∀ h ∈ r.list, ∀ t, h.trigger = some t → t ≠ "" → ¬ t.toList <+: text.toList
  rest : text = "" ∨ text.toList.head? = some '/' ∨
    (∃ h ∈ r.list, ∃ t, h.Selects t ∧ text.toList <+: t.toList ∧ text.length < t.length) ∨ r.get? "text" = none

/-- a state that an editor can be in -/
def EditorState.Stands (r : ContentRegistry) : EditorState → Prop
  | root text => r.Leaves text
  | typed tag _ => (r.get? tag).isSome

namespace Editor

variable {r : ContentRegistry} {e : Editor} {d : Committed}

/-! ## Texts at the root -/

theorem leaves_iff {text : String} : r.Leaves text ↔ r.byTrigger? text = none ∧ fallback? r text = none := by
  have htriggers : r.byTrigger? text = none ↔
      ∀ h ∈ r.list, ∀ t, h.trigger = some t → t ≠ "" → ¬ t.toList <+: text.toList := by
    simp only [ContentRegistry.byTrigger?_eq_none_iff, ContentRegistry.opens_iff, not_exists, not_and]
  have hrest : fallback? r text = none ↔ text = "" ∨ text.toList.head? = some '/' ∨
      (∃ h ∈ r.list, ∃ t, h.Selects t ∧ text.toList <+: t.toList ∧ text.length < t.length) ∨ r.get? "text" = none := by
    by_cases hempty : text = ""
    · simp [fallback?, hempty]
    · have hsub : r.isSubPrefix text = true ↔ _ := ContentRegistry.isSubPrefix_iff.trans (and_iff_right hempty)
      rw [← hsub, fallback?, isCommandLine]
      by_cases hslash : text.toList.head? = some '/'
      · simp [hslash]
      · cases r.isSubPrefix text <;> simp [hempty, hslash]
  rw [htriggers, hrest]
  exact ⟨fun h => ⟨h.triggers, h.rest⟩, fun h => ⟨h.1, h.2⟩⟩

theorem leaves_empty : r.Leaves "" := leaves_iff.2 ⟨ContentRegistry.byTrigger?_empty, by simp [fallback?]⟩

/-! ## One call -/

theorem stands_enterType {h : Handler} (hmem : h ∈ r.list) (e : Editor) (seed : String) :
    (e.enterType h seed).1.state.Stands r := by
  simp [enterType, EditorState.Stands, ContentRegistry.get?_tag hmem]

theorem stands_resolveRoot (e : Editor) (text : String) : (e.resolveRoot r text).1.state.Stands r := by
  unfold resolveRoot
  split
  · rename_i h hb
    exact stands_enterType (ContentRegistry.opens_of_byTrigger? hb).1 e _
  · rename_i hb
    split
    · rename_i h hf
      simp only [fallback?] at hf
      split at hf
      · exact stands_enterType (ContentRegistry.mem_of_get? hf) e _
      · cases hf
    · rename_i hf
      exact leaves_iff.2 ⟨hb, hf⟩

theorem stands_input (hs : e.state.Stands r) (text : String) : (e.input r text).1.state.Stands r := by
  unfold input
  split
  · exact stands_resolveRoot e text
  · rename_i tag draft hstate
    split
    · rw [hstate] at hs
      exact hs
    · exact hs

theorem stands_afterCommit (tag : String) : (afterCommit r tag).Stands r := by
  unfold afterCommit
  split
  · rename_i next hnext
    obtain ⟨tag', -, hget⟩ := Option.bind_eq_some_iff.1 hnext
    simp [EditorState.Stands, ContentRegistry.get?_tag (ContentRegistry.mem_of_get? hget)]
  · exact leaves_empty

theorem stands_commit (hs : e.state.Stands r) : (e.commit r).1.state.Stands r := by
  unfold commit
  split
  · exact hs
  · exact stands_afterCommit _

theorem stands_cancel : e.cancel.1.state.Stands r := leaves_empty

theorem stands_runSlashCommand (hs : e.state.Stands r) (line : String) :
    (e.runSlashCommand r line).1.state.Stands r := by
  simp only [runSlashCommand]
  split
  · rename_i h hfind
    exact stands_enterType (List.mem_of_find?_eq_some hfind) e _
  · exact hs

theorem stands_key (hs : e.state.Stands r) (k : String) : (e.key r k).1.state.Stands r := by
  unfold key
  split
  · split
    · exact stands_runSlashCommand hs _
    · exact hs
  · split
    · exact hs
    · split
      · exact hs
      · exact stands_commit hs
      · exact stands_cancel

theorem stands_setDraft (hs : e.state.Stands r) (value : Json) : (e.setDraft value).state.Stands r := by
  unfold setDraft
  split
  · exact hs
  · rename_i tag draft hstate
    rw [hstate] at hs
    exact hs

theorem stands_toggle (hs : e.state.Stands r) : (e.toggle r).state.Stands r := by
  unfold toggle
  split
  · exact hs
  · rename_i tag draft hstate
    split
    · rw [hstate] at hs
      exact hs
    · exact hs

theorem stands_perform (hs : e.state.Stands r) (c : EditorCall) : (e.perform r c).1.state.Stands r := by
  cases c with
  | input text => exact stands_input hs text
  | key k => exact stands_key hs k
  | commit => exact stands_commit hs
  | cancel => exact stands_cancel
  | slash line => exact stands_runSlashCommand hs line
  | toggle => exact stands_toggle hs
  | setDraft value => exact stands_setDraft hs value

/-! ## Drafts handed over -/

theorem saved_commit (h : (e.commit r).2 = .saved d) : e.state = .typed d.tag d.value := by
  unfold commit at h
  split at h
  · cases h
  · rename_i hstate
    cases h
    exact hstate

theorem input_ne_saved (text : String) : (e.input r text).2 ≠ .saved d := by
  unfold input
  split
  · unfold resolveRoot
    split
    · exact nofun
    · split <;> exact nofun
  · split <;> exact nofun

theorem cancel_ne_saved : e.cancel.2 ≠ .saved d := by
  unfold cancel
  cases e.state <;> exact nofun

theorem runSlashCommand_ne_saved (line : String) : (e.runSlashCommand r line).2 ≠ .saved d := by
  simp only [runSlashCommand]
  split <;> exact nofun

theorem saved_key {k : String} (h : (e.key r k).2 = .saved d) : e.state = .typed d.tag d.value := by
  unfold key at h
  split at h
  · split at h
    · exact absurd h (runSlashCommand_ne_saved _)
    · cases h
  · split at h
    · cases h
    · split at h
      · cases h
      · exact saved_commit h
      · exact absurd h cancel_ne_saved

/-- a draft is handed over as the editor held it -/
theorem saved_perform {c : EditorCall} (h : (e.perform r c).2 = .saved d) : e.state = .typed d.tag d.value := by
  cases c with
  | input text => exact absurd h (input_ne_saved text)
  | key k => exact saved_key h
  | commit => exact saved_commit h
  | cancel => exact absurd h cancel_ne_saved
  | slash line => exact absurd h (runSlashCommand_ne_saved line)
  | toggle => cases h
  | setDraft value => cases h

/-! ## All calls -/

theorem stands_opening (o : Opening) : (o.editor r).state.Stands r := by
  cases o with
  | blank => exact leaves_empty
  | onto id tag value =>
    simp only [Opening.editor, withType]
    split
    · rename_i h hget
      simp [EditorState.Stands, ContentRegistry.get?_tag (ContentRegistry.mem_of_get? hget)]
    · exact leaves_empty

theorem stands_performAll (hs : e.state.Stands r) (cs : List EditorCall) : (e.performAll r cs).1.state.Stands r := by
  induction cs generalizing e with
  | nil => exact hs
  | cons c cs ih => exact ih (stands_perform hs c)

/-- **Where an editor stands.** However an editor was opened and whatever calls it took: a draft is of a type that is
served, which shows it; a text at the root is one that no type takes. A draft that the next call hands over is the one
that the editor held, with its type. -/
theorem stands_after_calls (r : ContentRegistry) (o : Opening) (calls : List EditorCall) :
    let e := ((o.editor r).performAll r calls).1
    (∀ tag draft, e.state = .typed tag draft →
      (r.get? tag).isSome ∧ (e.view r).isSome ∧ e.currentType = some tag) ∧
    (∀ text, e.state = .root text → r.Leaves text) ∧
    ∀ c d, (e.perform r c).2 = .saved d → e.state = .typed d.tag d.value := by
  intro e
  have hs : e.state.Stands r := stands_performAll (stands_opening o) calls
  refine ⟨fun tag draft hstate => ?_, fun text hstate => ?_, fun c d => saved_perform⟩
  · rw [hstate] at hs
    have hserved : (r.get? tag).isSome := hs
    exact ⟨hserved, by simpa [view, hstate] using hserved, by simp [currentType, hstate]⟩
  · rwa [hstate] at hs

end Editor

end Corkboard
