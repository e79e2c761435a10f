/-
Typed or pasted.

A text reaches the editor as a whole, or character by character, each time with all that was typed so far, until a type
takes it. The two ways could part, since a beginning of the text may select another type than the whole.

- `typed_or_pasted`: they do not where no trigger is the strict beginning of another one. Either no type takes the text
  in both ways, or the same type takes it, by the trigger that the text opens with or as plain text.

A beginning that a type takes decides the whole text (`byTrigger?_of_beginning`, `fallback?_of_beginning`), and the
induction is on what is still to be typed.
-/
import Corkboard.Proofs.Editor.States

namespace Corkboard

/-- the beginnings of a text that are longer than `typed`, one character more each, up to the whole; `rest` is what
follows `typed` in the text -/
def Text.growing (typed : List Char) : List Char → List String
  | [] => []
  | c :: rest => .ofList (typed ++ [c]) :: growing (typed ++ [c]) rest

namespace ContentRegistry

variable {r : ContentRegistry} {h : Handler} {now text : String}

/-- no trigger is the strict beginning of another one -/
def TriggersApart (r : ContentRegistry) : Prop :=
  ∀ h ∈ r.list, ∀ h' ∈ r.list, ∀ t t', h.trigger = some t → h'.trigger = some t' → t ≠ "" →
    t.toList <+: t'.toList → t = t'

/-! ## What a beginning decides -/

/-- a trigger that a beginning opens with stays the one that is chosen -/
theorem byTrigger?_of_beginning (hr : r.TriggersApart) (hb : r.byTrigger? now = some h)
    (hpre : now.toList <+: text.toList) : r.byTrigger? text = some h := by
  obtain ⟨hmem, hopens⟩ := opens_of_byTrigger? hb
  obtain ⟨t, ht, hne, htnow⟩ := opens_iff.1 hopens
  rw [← hb]
  refine byTrigger?_congr fun h' hmem' => Bool.eq_iff_iff.2 ?_
  simp only [opens_iff]
  constructor
  · intro ho
    obtain ⟨t', ht', hne', hpre'⟩ := ho
    -- both triggers begin the text, so one begins the other
    obtain rfl : t = t' := by
      rcases List.prefix_or_prefix_of_prefix (htnow.trans hpre) hpre' with hle | hle
      · exact hr h hmem h' hmem' t t' ht ht' hne hle
      · exact (hr h' hmem' h hmem t' t ht' ht hne' hle).symm
    exact ⟨t, ht', hne', htnow⟩
  · intro ho
    obtain ⟨t', ht', hne', hpre'⟩ := ho
    exact ⟨t', ht', hne', hpre'.trans hpre⟩

end ContentRegistry

namespace Editor

open ContentRegistry

variable {r : ContentRegistry} {h : Handler} {now text : String}

theorem fallback?_eq_some_iff : fallback? r text = some h ↔
    text ≠ "" ∧ text.toList.head? ≠ some '/' ∧ r.isSubPrefix text = false ∧ r.get? "text" = some h := by
  simp [fallback?, isCommandLine, and_assoc]

/-- a beginning that falls to the plain text type settles the whole text: no trigger can come of it any more -/
theorem fallback?_of_beginning (hb : r.byTrigger? now = none) (hf : fallback? r now = some h)
    (hpre : now.toList <+: text.toList) : r.byTrigger? text = none ∧ fallback? r text = some h := by
  obtain ⟨hne, hslash, hsub, hget⟩ := fallback?_eq_some_iff.1 hf
  obtain ⟨more, hmore⟩ := hpre
  have hlength : now.length ≤ text.length := by simp [← String.length_toList, ← hmore]
  have hcomplete : ∀ h' ∈ r.list, ∀ t, h'.Selects t → now.toList <+: t.toList → t.length ≤ now.length := by
    intro h' hmem t ht hp
    by_contra hlt
    rw [isSubPrefix_iff.2 ⟨hne, h', hmem, t, ht, hp, by omega⟩] at hsub
    cases hsub
  refine ⟨byTrigger?_eq_none_iff.2 fun h' hmem ho => ?_, fallback?_eq_some_iff.2 ⟨?_, ?_, ?_, hget⟩⟩
  · obtain ⟨t, ht, htne, hp⟩ := opens_iff.1 ho
    have hnone : ¬ t.toList <+: now.toList := fun hle =>
      byTrigger?_eq_none_iff.1 hb h' hmem (opens_iff.2 ⟨t, ht, htne, hle⟩)
    rcases List.prefix_or_prefix_of_prefix hp ⟨more, hmore⟩ with hle | hle
    · exact hnone hle
    · have heq : now.toList = t.toList :=
        hle.eq_of_length_le (by simpa only [String.length_toList] using hcomplete h' hmem t (.inl ht) hle)
      exact hnone (heq ▸ List.prefix_rfl)
  · rintro rfl
    exact hne (String.toList_injective (by simpa using (List.append_eq_nil_iff.1 hmore).1))
  · rw [← hmore, List.head?_append_of_ne_nil _ (by simpa using hne)]
    exact hslash
  · by_contra hs
    obtain ⟨-, h', hmem, t, ht, hp, hlt⟩ := isSubPrefix_iff.1 (by simpa using hs)
    have := hcomplete h' hmem t ht (List.IsPrefix.trans ⟨more, hmore⟩ hp)
    omega

/-! ## One input -/

theorem resolveRoot_of_trigger (e : Editor) (hb : r.byTrigger? text = some h) :
    (e.resolveRoot r text).1 = ⟨e.id, .typed h.tag (h.initialValue (seedOf h text))⟩ := by
  simp only [resolveRoot, hb, enterType]

theorem resolveRoot_of_fallback (e : Editor) (hb : r.byTrigger? text = none) (hf : fallback? r text = some h) :
    (e.resolveRoot r text).1 = ⟨e.id, .typed h.tag (h.initialValue text)⟩ := by
  simp only [resolveRoot, hb, hf, enterType]

theorem resolveRoot_of_leaves (e : Editor) (hl : r.Leaves text) : (e.resolveRoot r text).1 = ⟨e.id, .root text⟩ := by
  obtain ⟨hb, hf⟩ := leaves_iff.1 hl
  simp only [resolveRoot, hb, hf]

/-- a trigger that the last character completes leaves nothing behind it -/
theorem seedOf_completed {typed : List Char} {c : Char} (hl : r.Leaves (.ofList typed))
    (hb : r.byTrigger? (.ofList (typed ++ [c])) = some h) : seedOf h (.ofList (typed ++ [c])) = "" := by
  obtain ⟨hmem, hopens⟩ := opens_of_byTrigger? hb
  obtain ⟨t, ht, hne, hnow⟩ := append_seedOf hopens
  have hchars := congrArg String.toList hnow
  simp only [String.toList_ofList, String.toList_append] at hchars
  rcases List.prefix_concat_iff.1 (show t.toList <+: typed ++ [c] from ⟨_, hchars.symm⟩) with heq | hle
  · rw [heq] at hchars
    exact String.toList_injective (List.self_eq_append_right.1 hchars)
  · exact absurd (by simpa using hle) (hl.triggers h hmem t ht hne)

theorem typeOn_typed (id : Option Uuid) (tag : String) (draft : Json) (typed rest : List Char) :
    typeOn r ⟨id, .typed tag draft⟩ typed rest = (⟨id, .typed tag draft⟩, []) := by
  cases rest <;> rfl

theorem typeOn_cons (id : Option Uuid) (typed : List Char) (c : Char) (rest : List Char) :
    typeOn r ⟨id, .root (.ofList typed)⟩ typed (c :: rest) =
      let out := resolveRoot r ⟨id, .root (.ofList typed)⟩ (.ofList (typed ++ [c]))
      let more := out.1.typeOn r (typed ++ [c]) rest
      (more.1, out.2 :: more.2) := rfl

/-- the built-in text takes over what is typed -/
theorem performAll_growing (hget : r.get? "text" = some .text) (id : Option Uuid) (typed rest : List Char) :
    (performAll r ⟨id, .typed "text" (.string (.ofList typed))⟩ ((Text.growing typed rest).map .input)).1.state =
      .typed "text" (.string (.ofList (typed ++ rest))) := by
  induction rest generalizing typed with
  | nil => simp [Text.growing, performAll]
  | cons c rest ih =>
    have hinput : perform r ⟨id, .typed "text" (.string (.ofList typed))⟩ (.input (.ofList (typed ++ [c]))) =
        (⟨id, .typed "text" (.string (.ofList (typed ++ [c])))⟩, .none) := by
      simp only [perform, input, hget]
      rfl
    rw [Text.growing, List.map_cons, performAll, hinput, ih, List.append_assoc, List.singleton_append]

/-! ## All inputs -/

/-- what becomes of a text that is typed with these inputs or pasted: it is left at the root, taken by a trigger, or
taken as plain text; `typed` comes with the inputs that it took of `inputs` -/
inductive ComesTo (r : ContentRegistry) (text : String) (inputs : List String) (typed : Editor × List EditorAction)
    (pasted : Editor) : Prop
  | left : typed.1.state = .root text → pasted.state = .root text → ComesTo r text inputs typed pasted
  | trigger (h : Handler) (t seed : String) : h ∈ r.list → h.trigger = some t → t ≠ "" → text = t ++ seed →
    typed.1.state = .typed h.tag (h.initialValue "") → pasted.state = .typed h.tag (h.initialValue seed) →
    ComesTo r text inputs typed pasted
  | plain (h : Handler) (now : String) : r.get? "text" = some h → typed.1.state = .typed h.tag (h.initialValue now) →
    pasted.state = .typed h.tag (h.initialValue text) →
    (h = .text →
      (typed.1.performAll r ((inputs.drop typed.2.length).map .input)).1.state = pasted.state) →
    ComesTo r text inputs typed pasted

theorem ComesTo.one_more {typed : Editor × List EditorAction} {pasted : Editor} {inputs : List String}
    (hc : ComesTo r text inputs typed pasted) (input : String) (a : EditorAction) :
    ComesTo r text (input :: inputs) (typed.1, a :: typed.2) pasted := by
  cases hc with
  | left ht hp => exact .left ht hp
  | trigger h t seed hmem ht hne htext htyped hp => exact .trigger h t seed hmem ht hne htext htyped hp
  | plain h now hget htyped hp hrest => exact .plain h now hget htyped hp hrest

theorem comesTo_typeOn (hr : r.TriggersApart) (id : Option Uuid) (typed rest : List Char)
    (hl : r.Leaves (.ofList typed)) (e : Editor) :
    ComesTo r (.ofList (typed ++ rest)) (Text.growing typed rest) (typeOn r ⟨id, .root (.ofList typed)⟩ typed rest)
      (e.resolveRoot r (.ofList (typed ++ rest))).1 := by
  induction rest generalizing typed with
  | nil =>
    refine .left (by simp [typeOn]) ?_
    rw [List.append_nil, resolveRoot_of_leaves e hl]
  | cons c rest ih =>
    have hpre : (String.ofList (typed ++ [c])).toList <+: (String.ofList (typed ++ c :: rest)).toList := by simp
    rw [typeOn_cons, Text.growing]
    cases hb : r.byTrigger? (.ofList (typed ++ [c])) with
    | some h =>
      obtain ⟨hmem, hopens⟩ := opens_of_byTrigger? (byTrigger?_of_beginning hr hb hpre)
      obtain ⟨t, ht, hne, htext⟩ := append_seedOf hopens
      refine .trigger h t _ hmem ht hne htext ?_ ?_
      · simp only [resolveRoot_of_trigger _ hb, typeOn_typed, seedOf_completed hl hb]
      · rw [resolveRoot_of_trigger e (byTrigger?_of_beginning hr hb hpre)]
    | none =>
      cases hf : fallback? r (.ofList (typed ++ [c])) with
      | some h =>
        obtain ⟨hb', hf'⟩ := fallback?_of_beginning hb hf hpre
        have hget : r.get? "text" = some h := (fallback?_eq_some_iff.1 hf).2.2.2
        refine .plain h (.ofList (typed ++ [c])) hget ?_ ?_ ?_
        · simp only [resolveRoot_of_fallback _ hb hf, typeOn_typed]
        · rw [resolveRoot_of_fallback e hb' hf']
        · rintro rfl
          have hgrown := performAll_growing hget id (typed ++ [c]) rest
          rw [← List.append_cons] at hgrown
          simp only [resolveRoot_of_fallback _ hb hf, resolveRoot_of_fallback e hb' hf', typeOn_typed]
          exact hgrown
      | none =>
        have hl' : r.Leaves (.ofList (typed ++ [c])) := leaves_iff.2 ⟨hb, hf⟩
        have hmore := ih (typed ++ [c]) hl'
        rw [← List.append_cons] at hmore
        simp only [resolveRoot_of_leaves _ hl']
        exact hmore.one_more _ _

/-- **Typed or pasted.** Where no trigger is the strict beginning of another one, it makes no difference to the type
whether a text is typed or pasted. -/
theorem typed_or_pasted (r : ContentRegistry) (hr : r.TriggersApart) (text : String) :
    ComesTo r text (Text.growing [] text.toList) (new.typeText r text) (new.input r text).1 := by
  have hcomes := comesTo_typeOn hr none [] text.toList leaves_empty new
  rwa [List.nil_append, String.ofList_toList] at hcomes

theorem builtin_triggersApart (policy : PrefixPolicy) : (ContentRegistry.builtin policy).TriggersApart := by
  have hlist : (ContentRegistry.builtin policy).list = Handler.builtins := rfl
  intro h hmem h' hmem' t t' ht ht' hne hpre
  rw [hlist] at hmem hmem'
  simp only [Handler.builtins, List.mem_cons, List.not_mem_nil, or_false] at hmem hmem'
  rcases hmem with rfl | rfl | rfl | rfl <;> cases ht <;> rcases hmem' with rfl | rfl | rfl | rfl <;> cases ht' <;>
    first | rfl | exact absurd hpre (by decide)

/-- a checkbox, typed and pasted -/
theorem checkbox_either_way : (ContentRegistry.builtin .longestMatch).TriggersApart ∧
    (new.typeText (.builtin .longestMatch) "[ ] milk").1.state = .typed "checkbox" (Payload.ofChecked false "") ∧
    (new.input (.builtin .longestMatch) "[ ] milk").1.state = .typed "checkbox" (Payload.ofChecked false "milk") ∧
    ComesTo (.builtin .longestMatch) "[ ] milk" (Text.growing [] "[ ] milk".toList)
      (new.typeText (.builtin .longestMatch) "[ ] milk") (new.input (.builtin .longestMatch) "[ ] milk").1 :=
  ⟨builtin_triggersApart .longestMatch, rfl, rfl,
    typed_or_pasted (.builtin .longestMatch) (builtin_triggersApart .longestMatch) "[ ] milk"⟩

/-- two triggers of which one begins the other -/
def headings : ContentRegistry :=
  ⟨.ofList "content" [.verbatim "title" none (some "#") none false ⟨0, .ok .null⟩,
    .verbatim "section" none (some "##") none false ⟨0, .ok .null⟩], .longestMatch⟩

-- the shorter trigger takes the text that is typed, the longer one the text that is pasted
example : (new.typeText headings "## a").1.currentType = some "title" ∧
    (new.input headings "## a").1.currentType = some "section" := by decide

end Editor

end Corkboard
