/-
What is stored for a property and how it is shown.

What a type stores has one of three forms: a text, a truth value, or a list of texts. The type of a template may change
while the stored values stay, so a value may meet a type of another form, which shows it as empty although it counts as
holding something; so does a text of nothing but blanks. A slot is legible to a type when neither happens.

- `parse_stored`, `parse_fits`: what a type stores, by form.
- `display?_eq_none_iff`: a type shows a slot as empty exactly when it counts as empty or is not legible to it.
-/
import Corkboard.Board
import Corkboard.Gallery

namespace Corkboard

/-- the form of what a property type stores -/
inductive PropertyForm where
  | text
  | flag
  | choices
  deriving DecidableEq

/-- what any type stores: a text, a truth value, or a list of texts -/
def Json.Stored : Json → Prop
  | .string _ | .bool _ => True
  | .array vs => ∀ v ∈ vs, ∃ s, v = .string s
  | _ => False

/-- a stored value of one form, and no blank text -/
def PropertyForm.Fits : PropertyForm → Json → Prop
  | text, .string s => Text.trim s ≠ ""
  | flag, .bool _ => True
  | choices, .array vs => ∀ v ∈ vs, ∃ s, v = .string s
  | _, _ => False

/-- no option has a blank identifier -/
def PropertyTemplate.NoBlanks (t : PropertyTemplate) : Prop := ∀ o ∈ t.options, Text.trim o.id ≠ ""

namespace PropertyKind

/-- the form of what a type stores -/
def form : PropertyKind → PropertyForm
  | checkbox => .flag
  | multiSelect => .choices
  | _ => .text

/-- a slot that a type shows as empty only if it counts as empty -/
def Legible (k : PropertyKind) : Option Json → Prop
  | some (.string s) => s = "" ∨ (k ≠ multiSelect ∧ Text.trim s ≠ "")
  | some (.bool _) => False
  | some (.array vs) => vs = [] ∨ k = multiSelect
  | _ => True

variable {k : PropertyKind} {t : PropertyTemplate} {ms : Members} {raw : String} {v : Json} {slot : Option Json}

/-! ## Reading -/

theorem optionId_mem {key id : String} (h : optionId t key = .ok id) : ∃ o ∈ t.options, o.id = id := by
  unfold optionId at h
  split at h
  · rename_i o ho
    cases h
    rcases Option.or_eq_some_iff.1 ho with ho | ⟨-, ho⟩
    · exact ⟨o, List.mem_of_find?_eq_some ho, rfl⟩
    · exact ⟨o, List.mem_of_find?_eq_some ho, rfl⟩
  · cases h

/-- a text that a type stores: what was typed, an option, or a person -/
def Typed (raw : String) (t : PropertyTemplate) (ms : Members) (s : String) : Prop :=
  (s = Text.trim raw ∧ s ≠ "") ∨ (∃ o ∈ t.options, o.id = s) ∨ (ms.get? s).isSome

theorem mem_of_idOf? {key id : String} (h : ms.idOf? key = some id) : (ms.get? id).isSome := by
  unfold Members.idOf? at h
  split at h
  · rename_i hkey
    cases h
    exact hkey
  · obtain ⟨e, he, rfl⟩ := Option.map_eq_some_iff.1 h
    exact Option.isSome_of_eq_some ((ms.get?_eq_some_iff e.1 e.2).2 (List.mem_of_find?_eq_some he))

/-- what a type makes of an input: nothing, or a value of its form -/
theorem parse_cases (h : k.parse raw t ms = .ok v) :
    v = .null ∨ (k.form = .text ∧ ∃ s, v = .string s ∧ Typed raw t ms s) ∨
    (k.form = .flag ∧ ∃ b, v = .bool b) ∨ (k.form = .choices ∧ ∃ ids : List String, v = .array (ids.map .string)) := by
  have htext : ∀ {x : Except PropertyError Json}, k.form = .text →
      (∀ y, x = .ok y → ∃ s, y = .string s ∧ (Text.trim raw ≠ "" → Typed raw t ms s)) →
      (if Text.trim raw = "" then .ok .null else x) = .ok v → v = .null ∨ (k.form = .text ∧ ∃ s, v = .string s ∧
        Typed raw t ms s) := by
    intro x hform hx h
    split at h
    · cases h
      exact .inl rfl
    · rename_i hne
      obtain ⟨s, rfl, hs⟩ := hx v h
      exact .inr ⟨hform, s, rfl, hs hne⟩
  have hraw : Text.trim raw ≠ "" → Typed raw t ms (Text.trim raw) := fun hne => .inl ⟨rfl, hne⟩
  cases k with
  | checkbox =>
    simp only [parse] at h
    split at h
    · cases h
      exact .inr (.inr (.inl ⟨rfl, _, rfl⟩))
    · cases h
  | multiSelect =>
    simp only [parse] at h
    cases hids : optionIds t [] (optionKeys raw) with
    | error e => rw [hids] at h; cases h
    | ok ids =>
      rw [hids] at h
      cases h
      exact .inr (.inr (.inr ⟨rfl, ids, rfl⟩))
  | text =>
    simp only [parse] at h
    exact (htext rfl (fun y hy => by cases hy; exact ⟨_, rfl, hraw⟩) h).imp_right .inl
  | number | email | url =>
    simp only [parse] at h
    refine (htext rfl (fun y hy => ?_) h).imp_right .inl
    split at hy
    · cases hy
      exact ⟨_, rfl, hraw⟩
    · cases hy
  | select =>
    simp only [parse] at h
    refine (htext rfl (fun y hy => ?_) h).imp_right .inl
    cases ho : optionId t (Text.trim raw) with
    | error e => rw [ho] at hy; cases hy
    | ok id =>
      rw [ho] at hy
      cases hy
      exact ⟨id, rfl, fun _ => .inr (.inl (optionId_mem ho))⟩
  | person =>
    simp only [parse] at h
    refine (htext rfl (fun y hy => ?_) h).imp_right .inl
    split at hy
    · rename_i id hid
      cases hy
      exact ⟨id, rfl, fun _ => .inr (.inr (mem_of_idOf? hid))⟩
    · cases hy

theorem parse_stored (h : k.parse raw t ms = .ok v) : v = .null ∨ v.Stored := by
  rcases parse_cases h with hn | ⟨-, s, rfl, -⟩ | ⟨-, b, rfl⟩ | ⟨-, ids, rfl⟩
  · exact .inl hn
  · exact .inr trivial
  · exact .inr trivial
  · exact .inr (by simp [Json.Stored])

theorem parse_fits (ht : t.NoBlanks) (hms : ∀ id, (ms.get? id).isSome → Text.trim id ≠ "")
    (h : k.parse raw t ms = .ok v) :
    v = .null ∨ k.form.Fits v := by
  rcases parse_cases h with hn | ⟨hform, s, rfl, hs⟩ | ⟨hform, b, rfl⟩ | ⟨hform, ids, rfl⟩
  · exact .inl hn
  · rw [hform]
    rcases hs with ⟨rfl, hne⟩ | ⟨o, ho, rfl⟩ | hs
    · exact .inr fun he => hne (by rwa [Text.trim_eq_empty_iff, Text.isBlank_trim, ← Text.trim_eq_empty_iff] at he)
    · exact .inr (ht o ho)
    · exact .inr (hms s hs)
  · rw [hform]
    exact .inr trivial
  · rw [hform]
    exact .inr (by simp [PropertyForm.Fits])

/-! ## Showing -/

theorem form_of_supports (hk : k.supports .countEmpty = true) : k.form = .text ∨ k = multiSelect := by
  cases k <;> first | exact .inl rfl | exact .inr rfl | exact absurd hk (by decide)

/-- a value of the type's form is legible to it -/
theorem legible_of_fits (hk : k.supports .countEmpty = true) (hv : ∀ x ∈ slot, k.form.Fits x) : k.Legible slot := by
  rcases slot with _ | v
  · trivial
  have hfits := hv v rfl
  rcases form_of_supports hk with hform | rfl
  · have hne : k ≠ multiSelect := by rintro rfl; cases hform
    rw [hform] at hfits
    cases v with
    | string s => exact .inr ⟨hne, hfits⟩
    | _ => exact hfits.elim
  · cases v with
    | array vs => exact .inr rfl
    | _ => exact hfits.elim

theorem nonBlank?_string (s : String) : nonBlank? (some (.string s)) = none ↔ Text.trim s = "" := by
  by_cases hs : Text.trim s = "" <;> simp [nonBlank?, Json.string?, hs]

/-- a type of texts shows what is stored as empty when it is no text, or a blank one -/
theorem display?_text (hk : k.form = .text) (hv : ∀ v ∈ slot, v.Stored) :
    k.display? slot t ms = none ↔ nonBlank? slot = none := by
  cases k with
  | checkbox | multiSelect => cases hk
  | number =>
    rcases slot with _ | v
    · rfl
    · cases v <;> first | rfl | exact (hv _ rfl).elim
  | _ => simp [display?]

/-- a multiple selection shows an array of texts as empty when it has none, and so it shows all that is no array -/
theorem display?_multiSelect (hv : ∀ v ∈ slot, v.Stored) :
    multiSelect.display? slot t ms = none ↔ ∀ vs, slot = some (.array vs) → vs = [] := by
  rcases slot with _ | v
  · simp [display?]
  · cases v with
    | array vs =>
      have hall : ∀ v ∈ vs, ∃ s, v = .string s := hv _ rfl
      rcases vs with _ | ⟨v, vs⟩
      · simp [display?, Json.array?]
      · obtain ⟨s, rfl⟩ := hall v List.mem_cons_self
        simp [display?, Json.array?, Json.string?]
    | _ => simp [display?, Json.array?]

theorem display?_of_isEmpty (hk : k.supports .countEmpty = true) (he : Calculation.isEmpty slot = true) :
    k.display? slot t ms = none := by
  have hshape : slot = none ∨ slot = some .null ∨ slot = some (.string "") ∨ slot = some (.array []) := by
    rcases slot with _ | v
    · exact .inl rfl
    · cases v <;> simp_all [Calculation.isEmpty]
  rcases hshape with rfl | rfl | rfl | rfl <;> cases k <;> first | rfl | exact absurd hk (by decide)

/-- **Illegible slots.** A stored value is shown as empty and does not count as empty exactly when its type cannot tell
it. -/
theorem not_legible_iff (hk : k.supports .countEmpty = true) (hv : ∀ v ∈ slot, v.Stored) :
    ¬ k.Legible slot ↔ k.display? slot t ms = none ∧ Calculation.isEmpty slot = false := by
  rcases slot with _ | v
  · simp [Legible, Calculation.isEmpty]
  rcases form_of_supports hk with hform | rfl
  · have hne : k ≠ multiSelect := by rintro rfl; cases hform
    rw [display?_text hform hv]
    cases v with
    | string s =>
      rw [nonBlank?_string]
      have hblank : Text.trim "" = "" := by decide
      simp only [Legible, Calculation.isEmpty, decide_eq_false_iff_not]
      constructor
      · intro hn
        refine ⟨?_, fun hs => hn (.inl hs)⟩
        by_cases ht : Text.trim s = ""
        · exact ht
        · exact absurd (.inr ⟨hne, ht⟩) hn
      · rintro ⟨ht, hs⟩ (h | ⟨-, h⟩)
        · exact hs h
        · exact h ht
    | bool b => simp [Legible, Calculation.isEmpty, nonBlank?, Json.string?]
    | array vs => simp [Legible, Calculation.isEmpty, nonBlank?, Json.string?, hne]
    | _ => exact (hv _ rfl).elim
  · rw [display?_multiSelect hv]
    cases v with
    | string s => simp [Legible, Calculation.isEmpty]
    | bool b => simp [Legible, Calculation.isEmpty]
    | array vs => simp [Legible, Calculation.isEmpty]
    | _ => exact (hv _ rfl).elim

end PropertyKind

/-! ## Templates -/

namespace Gallery

variable {r : PropertyRegistry} {b : Board} {id : String} {t : PropertyTemplate} {k : PropertyKind} {c : Card}

def showsEmpty (r : PropertyRegistry) (b : Board) (id : String) (c : Card) : Bool :=
  ((renderProperties r b c).find? (·.templateId = id)).any (·.view.node = .empty)

/-- the first template of an identifier is the one that is shown under it, if its type is known -/
theorem find?_renderProperties (ht : b.template? id = some t) (hk : r.get? t.tag = some k) :
    (renderProperties r b c).find? (·.templateId = id) = renderProperty? r b.members c t := by
  obtain ⟨hid, before, after, htemplates, hbefore⟩ := List.find?_eq_some_iff_append.1 ht
  have hfirst : b.templates.find? (fun u => (renderProperty? r b.members c u).any (·.templateId = id)) = some t := by
    refine List.find?_eq_some_iff_append.2 ⟨by simpa [renderProperty?, hk] using hid, before, after, htemplates, ?_⟩
    intro u hu
    have hne := hbefore u hu
    cases hget : r.get? u.tag <;> simp_all [renderProperty?]
  rw [renderProperties, List.find?_filterMap, hfirst, Option.bind_some]

theorem showsEmpty_iff (ht : b.template? id = some t) (hk : r.get? t.tag = some k)
    (hc : k.supports .countEmpty = true) :
    showsEmpty r b id c = true ↔ k.display? (c.property? id) t b.members = none := by
  have hid : t.id = id := by simpa using List.find?_some ht
  have hrender : ((k.render (c.property? id) t b.members .display).node = .empty) ↔
      k.display? (c.property? id) t b.members = none := by
    have hne : k ≠ .checkbox := by
      rintro rfl
      exact absurd hc (by decide)
    unfold PropertyKind.render
    split
    · exact absurd rfl hne
    · cases k.display? (c.property? id) t b.members <;> simp
  rw [showsEmpty, find?_renderProperties ht hk]
  simpa [renderProperty?, hk, hid] using hrender

end Gallery

end Corkboard
