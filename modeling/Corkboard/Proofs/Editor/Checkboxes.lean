/-
Checkboxes as they are edited.

An editor may be opened on any payload: a bare string, a number, an object whose fields are missing or of another kind.
What becomes of such a draft when a checkbox is typed into and toggled, in any order?

- `performAll_typed`: calls that only edit leave an editor with its type; they change the draft one after the other, as
  the type does.
- `checkbox_draft`: of a checkbox, the flag is flipped once for each toggle and the label is what was typed last.
  Toggles have no part in the label, and what is typed has none in the flag. After the first call the draft is written
  out in full.
-/
import Corkboard.Editing
import Mathlib.Data.List.Basic
import Mathlib.Logic.Function.Iterate

namespace Corkboard

/-! ## Calls that edit -/

namespace EditorCall

/-- the call types into the draft or toggles it -/
def Edits : EditorCall → Prop
  | input _ | toggle => True
  | _ => False

def text? : EditorCall → Option String
  | input text => some text
  | _ => none

end EditorCall

/-- the draft of a type after such a call -/
def Handler.edited (h : Handler) (draft : Json) : EditorCall → Json
  | .input text => h.changeText draft text
  | .toggle => (h.toggle draft).getD draft
  | _ => draft

namespace Editor

variable {r : ContentRegistry} {h : Handler} {tag : String} {id : Option Uuid} {draft : Json} {c : EditorCall}
  {cs : List EditorCall}

theorem perform_typed (hr : r.get? tag = some h) (hc : c.Edits) :
    (perform r ⟨id, .typed tag draft⟩ c).1 = ⟨id, .typed tag (h.edited draft c)⟩ := by
  cases c with
  | input text => simp only [perform, input, hr, Handler.edited]
  | toggle =>
    simp only [perform, Editor.toggle, hr, Option.bind_some, Handler.edited]
    cases h.toggle draft <;> rfl
  | key k => exact hc.elim
  | commit => exact hc.elim
  | cancel => exact hc.elim
  | slash line => exact hc.elim
  | setDraft value => exact hc.elim

theorem performAll_typed (hr : r.get? tag = some h) (hcs : ∀ c ∈ cs, c.Edits) :
    (performAll r ⟨id, .typed tag draft⟩ cs).1 = ⟨id, .typed tag (cs.foldl h.edited draft)⟩ := by
  induction cs generalizing draft with
  | nil => rfl
  | cons c cs ih =>
    obtain ⟨hc, hrest⟩ := List.forall_mem_cons.1 hcs
    simp only [performAll, perform_typed hr hc, List.foldl_cons]
    exact ih hrest

end Editor

/-! ## The draft of a checkbox -/

namespace Handler

variable {v : Json} {c : EditorCall} {cs : List EditorCall}

/-- one call writes the draft out in full: a toggle flips the flag, a text replaces the label -/
theorem edited_checkbox (hc : c.Edits) (v : Json) : checkbox.edited v c =
    Payload.ofChecked (if c = .toggle then !Payload.checked v else Payload.checked v)
      (c.text?.getD (Payload.text v)) := by
  cases c with
  | input text => rfl
  | toggle => rfl
  | key k => exact hc.elim
  | commit => exact hc.elim
  | cancel => exact hc.elim
  | slash line => exact hc.elim
  | setDraft value => exact hc.elim

theorem checked_foldl_edited (hcs : ∀ c ∈ cs, c.Edits) (v : Json) :
    Payload.checked (cs.foldl checkbox.edited v) = not^[cs.count .toggle] (Payload.checked v) := by
  induction cs generalizing v with
  | nil => rfl
  | cons c cs ih =>
    obtain ⟨hc, hrest⟩ := List.forall_mem_cons.1 hcs
    rw [List.foldl_cons, ih hrest, edited_checkbox hc, Payload.checked_ofChecked]
    by_cases htoggle : c = .toggle
    · rw [if_pos htoggle, htoggle, List.count_cons_self, Function.iterate_succ_apply]
    · rw [if_neg htoggle, List.count_cons_of_ne htoggle]

theorem text_foldl_edited (hcs : ∀ c ∈ cs, c.Edits) (v : Json) :
    Payload.text (cs.foldl checkbox.edited v) = (cs.filterMap EditorCall.text?).getLast?.getD (Payload.text v) := by
  induction cs generalizing v with
  | nil => rfl
  | cons c cs ih =>
    obtain ⟨hc, hrest⟩ := List.forall_mem_cons.1 hcs
    rw [List.foldl_cons, ih hrest, edited_checkbox hc, Payload.text_ofChecked]
    cases htext : c.text? with
    | none => rw [List.filterMap_cons_none htext, Option.getD_none]
    | some text => rw [List.filterMap_cons_some htext, List.getLast?_cons, Option.getD_some, Option.getD_some]

/-- after at least one call the draft has the two fields and nothing else -/
theorem foldl_edited_eq (hcs : ∀ c ∈ cs, c.Edits) (hne : cs ≠ []) (v : Json) : cs.foldl checkbox.edited v =
    Payload.ofChecked (Payload.checked (cs.foldl checkbox.edited v)) (Payload.text (cs.foldl checkbox.edited v)) := by
  obtain ⟨cs', c, rfl⟩ := List.eq_nil_or_concat cs |>.resolve_left hne
  have hc : c.Edits := hcs c (by simp)
  rw [List.concat_eq_append, List.foldl_concat, edited_checkbox hc, Payload.checked_ofChecked, Payload.text_ofChecked]

end Handler

namespace Editor

/-- **A checkbox as it is edited.** Opened on any payload, and typed into and toggled in any order, an editor holds a
checkbox whose flag is that of the payload, flipped once for each toggle, and whose label is the text typed last, or
that of the payload if nothing was typed. From the first call on the draft consists of this flag and this label. -/
theorem checkbox_draft {r : ContentRegistry} (hr : r.get? "checkbox" = some .checkbox) (id : Option Uuid) (v : Json)
    {cs : List EditorCall} (hcs : ∀ c ∈ cs, c.Edits) :
    let flag := not^[cs.count .toggle] (Payload.checked v)
    let label := (cs.filterMap EditorCall.text?).getLast?.getD (Payload.text v)
    ∃ draft, (((Opening.onto id "checkbox" v).editor r).performAll r cs).1 = ⟨id, .typed "checkbox" draft⟩ ∧
      Payload.checked draft = flag ∧ Payload.text draft = label ∧
      (cs ≠ [] → draft = .object [("checked", .bool flag), ("value", .string label)]) := by
  have hopened : (Opening.onto id "checkbox" v).editor r = ⟨id, .typed "checkbox" v⟩ := by
    simp only [Opening.editor, withType, hr]
    rfl
  refine ⟨_, by rw [hopened, performAll_typed hr hcs], Handler.checked_foldl_edited hcs v,
    Handler.text_foldl_edited hcs v, fun hne => ?_⟩
  rw [Handler.foldl_edited_eq hcs hne, Handler.checked_foldl_edited hcs, Handler.text_foldl_edited hcs]
  rfl

/-- a bare string has a label and no flag; toggled, typed into and toggled twice more, it is a checked box -/
theorem bare_string_toggled : (ContentRegistry.builtin .longestMatch).get? "checkbox" = some .checkbox ∧
    (∀ c ∈ [EditorCall.toggle, .input "eggs", .toggle, .toggle], c.Edits) ∧
    ∃ draft, (((Opening.onto none "checkbox" (.string "milk")).editor (.builtin .longestMatch)).performAll
        (.builtin .longestMatch) [.toggle, .input "eggs", .toggle, .toggle]).1 = ⟨none, .typed "checkbox" draft⟩ ∧
      draft = .object [("checked", .bool true), ("value", .string "eggs")] := by
  have hedits : ∀ c ∈ [EditorCall.toggle, .input "eggs", .toggle, .toggle], c.Edits := by simp [EditorCall.Edits]
  obtain ⟨draft, hstate, -, -, hdraft⟩ := checkbox_draft (r := .builtin .longestMatch) rfl none (.string "milk") hedits
  exact ⟨rfl, hedits, draft, hstate, hdraft (by simp)⟩

end Editor

end Corkboard
