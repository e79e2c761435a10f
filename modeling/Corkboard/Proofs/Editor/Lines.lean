/-
Lines entered one after the other.

One editor takes all lines, and a line may leave it anywhere: at the root with a command that nobody knows, or with the
empty draft that follows a committed one. `enterLines_eq` says that it does not matter: each line gives what a new
editor makes of it alone (`draftOf`).
-/
import Corkboard.Proofs.Editor.Saves

namespace Corkboard

namespace Editor

variable {r : ContentRegistry} {e : Editor}

/-- what a new editor makes of a line: nothing of a blank one; else the line is put in, the enter key runs it if it is a
command line that stayed at the root, and a commit may hand over a draft -/
def draftOf (r : ContentRegistry) (line : String) : Option Committed :=
  if Text.isBlank line then none
  else
    let e := (new.input r line).1
    let e :=
      match e.state with
      | .root text => if isCommandLine text then (e.key r Key.enter).1 else e
      | .typed _ _ => e
    (e.commit r).2.saved?

/-- what was left of the line before is dropped -/
theorem cancel_eq_new (hid : e.id = none) : e.cancel.1 = new := by simp [cancel, new, hid]

/-- an editor at the root has nothing to hand over -/
theorem saved?_commit_root {text : String} (hstate : e.state = .root text) : (e.commit r).2.saved? = none := by
  simp [commit, hstate, EditorAction.saved?]

/-- a command line selects a type, or is not known and changes nothing -/
theorem runSlashCommand_cases (e : Editor) (line : String) :
    (∃ h seed, e.runSlashCommand r line = e.enterType h seed) ∨
    ∃ command, e.runSlashCommand r line = (e, .unknownCommand command) := by
  simp only [runSlashCommand]
  split
  · exact .inl ⟨_, _, rfl⟩
  · exact .inr ⟨_, rfl⟩

theorem key_enter_root {text : String} (hstate : e.state = .root text) (hcommand : isCommandLine text = true) :
    e.key r Key.enter = e.runSlashCommand r text := by
  simp only [key, hstate, hcommand, and_self, if_true]

theorem enterLine_draft (hid : e.id = none) (line : String) : (e.enterLine r line).2 = draftOf r line := by
  unfold enterLine draftOf
  split
  · rfl
  · rw [cancel_eq_new hid]
    generalize (new.input r line).1 = e'
    cases hstate : e'.state with
    | typed tag draft => simp [rootText?, hstate, commit, EditorAction.saved?]
    | root text =>
      by_cases hcommand : isCommandLine text = true
      · simp only [rootText?, hstate, Option.any_some, hcommand, if_true, key_enter_root hstate hcommand]
        rcases runSlashCommand_cases (r := r) e' text with ⟨h, seed, hrun⟩ | ⟨command, hrun⟩
        · rw [hrun]
          rfl
        · rw [hrun]
          exact (saved?_commit_root hstate).symm
      · simp [rootText?, hstate, hcommand, commit, EditorAction.saved?]

theorem enterLine_id (e : Editor) (line : String) : (e.enterLine r line).1.id = e.id := by
  have hinput : (e.cancel.1.input r line).1.id = e.id := (keeps_input r _ line).id.trans e.keeps_cancel.id
  unfold enterLine
  split
  · rfl
  · generalize (e.cancel.1.input r line).1 = e' at hinput
    have hcommit : ∀ e'' : Editor, e''.id = e.id → (e''.commit r).1.id = e.id := fun e'' h =>
      (e''.keeps_commit r).id.trans h
    by_cases hcommand : e'.rootText?.any isCommandLine = true
    · have hkey := hcommit _ ((e'.keeps_key r Key.enter).id.trans hinput)
      simp only [hcommand, if_true]
      split
      · exact (e'.keeps_key r _).id.trans hinput
      · split <;> simp_all
    · have hleft := hcommit _ hinput
      simp only [hcommand, Bool.false_eq_true, if_false]
      split <;> simp_all

/-- **Lines by themselves.** An editor on a new block makes of each line what a new editor makes of it. -/
theorem enterLines_eq (hid : e.id = none) (lines : List String) :
    enterLines r e lines = lines.filterMap (draftOf r) := by
  induction lines generalizing e with
  | nil => rfl
  | cons line lines ih =>
    have hrest := ih ((enterLine_id (r := r) e line).trans hid)
    have hdraft := enterLine_draft (r := r) hid line
    have hsplit : enterLines r e (line :: lines) =
        (e.enterLine r line).2.toList ++ enterLines r (e.enterLine r line).1 lines := rfl
    rw [hsplit, hrest, hdraft, List.filterMap_cons]
    cases draftOf r line <;> rfl

end Editor

end Corkboard
