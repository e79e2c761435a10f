/-
How choices are shown.

Choices are stored by the identifiers of options and shown by their labels, and the text that shows them is what an
editor holds. Two questions: is the text that shows a multiple selection read as the same selection, and what is shown
for an identifier whose option is gone? The labels are free text, so one may hold a comma, and the keys of the text are
what stands between commas; and an identifier without an option is looked up like a key, so it may meet the label of
another option.

- `optionKeys_intercalate`: the keys of labels joined by commas are the keys of each label in turn.
- `ReadsAs`: the keys of a label all name its own option, and there is one; so for every label without a comma.
- `shown_choices_read_back`: a selection of options whose labels hold no comma is shown by the labels and read back, and
  which templates read back every selection. `divided_label_reads_as_others` is a selection that its own text replaces.
- `stray_choice_shown_raw_iff`: what is shown for an identifier that no option has. `withdrawn_choice_shown_as_another`
  is a card whose option was replaced by one with an alike label.
-/
import Corkboard.Proofs.Api.Empties
import Corkboard.Proofs.Property.Keys
import Corkboard.Proofs.Property.Saving

namespace Corkboard

/-! ## Commas -/

theorem Text.mem_of_mem_trimChars {c : Char} {cs : List Char} (h : c ∈ trimChars cs) : c ∈ cs := by
  rw [trimChars, List.mem_reverse] at h
  exact List.dropWhile_subset _ (List.mem_reverse.1 (List.dropWhile_subset _ h))

theorem toLower_eq_comma {c : Char} (h : c.toLower = ',') : c = ',' := by
  unfold Char.toLower at h
  split at h
  · rename_i hupper
    -- a capital letter is taken to a small one, and these stand behind the comma
    have hcapital : 65 ≤ c.val.toNat ∧ c.val.toNat ≤ 90 := hupper
    have hsmall : (c.val.toNat + 32) % 2 ^ 32 = 44 := congrArg (fun d : Char => d.val.toNat) h
    omega
  · exact h

/-- texts that differ at most in case hold a comma both or neither -/
theorem PropertyTemplate.comma_mem_of_sameIgnoringCase {s s' : String} (h : sameIgnoringCase s s' = true)
    (hs : ',' ∈ s.toList) : ',' ∈ s'.toList := by
  have hlower : ',' ∈ s'.toList.map Char.toLower := by
    rw [← of_decide_eq_true h]
    exact List.mem_map_of_mem (f := Char.toLower) hs
  obtain ⟨c, hc, hcomma⟩ := List.mem_map.1 hlower
  rwa [← toLower_eq_comma hcomma]

namespace PropertyKind

variable {t : PropertyTemplate} {ms : Members} {raw key : String} {keys ids : List String} {o : SelectOption}
  {os : List SelectOption}

theorem no_comma_of_mem_optionKeys (h : key ∈ optionKeys raw) : ',' ∉ key.toList := by
  obtain ⟨piece, hpiece, rfl⟩ := List.mem_map.1 (List.mem_filter.1 h).1
  rw [String.toList_ofList]
  intro hcomma
  exact absurd (Text.false_of_mem_splitOnP hpiece ',' (Text.mem_of_mem_trimChars hcomma)) (by decide)

theorem optionKeys_join (a b : String) : optionKeys (a ++ ", " ++ b) = optionKeys a ++ optionKeys b := by
  have htext : (a ++ ", " ++ b).toList = a.toList ++ ',' :: ' ' :: b.toList := by simp
  obtain ⟨first, rest, hsplit⟩ := List.exists_cons_of_ne_nil (List.splitOnP_ne_nil (· = ',') b.toList)
  have htrim : Text.trimChars (' ' :: first) = Text.trimChars first := rfl
  rw [optionKeys, htext, List.splitOnP_append_cons _ _ (by decide), List.map_append, List.filter_append,
    List.splitOnP_cons_eq_if_modifyHead, if_neg (by decide), hsplit, List.modifyHead_cons, List.map_cons, htrim,
    optionKeys, optionKeys, hsplit, List.map_cons]

/-- the keys of labels as they are shown -/
theorem optionKeys_intercalate (labels : List String) :
    optionKeys (", ".intercalate labels) = labels.flatMap optionKeys := by
  induction labels with
  | nil => decide
  | cons label labels ih =>
    cases labels with
    | nil => simp [String.intercalate_singleton]
    | cons next labels => rw [String.intercalate_cons_cons, optionKeys_join, ih, ← List.flatMap_cons]

/-! ## Labels that are read as their options -/

end PropertyKind

namespace PropertyTemplate

variable {t : PropertyTemplate} {o o' : SelectOption}

/-- the keys of the label all name the option, and there is one -/
def ReadsAs (t : PropertyTemplate) (o : SelectOption) : Prop :=
  PropertyKind.optionKeys o.label ≠ [] ∧ ∀ key ∈ PropertyKind.optionKeys o.label, t.Names key o

theorem names_ident (ht : t.Unambiguous) (ho : o ∈ t.options) : t.Names o.id o :=
  option?_eq_some_iff.1 ((t.option?_eq o.id).trans (entryOf?_ident ht ho))

theorem names_label (ht : t.Unambiguous) (ho : o ∈ t.options) : t.Names o.label o :=
  option?_eq_some_iff.1 ((t.option?_eq o.label).trans (entryOf?_name PropertyKind.sameIgnoringCase_self ht ho))

theorem eq_of_ident (ht : t.Unambiguous) (ho : o ∈ t.options) (ho' : o' ∈ t.options) (hid : o.id = o'.id) : o = o' :=
  (names_ident ht ho).unique (hid ▸ names_ident ht ho')

theorem readsAs_of_no_comma (ht : t.Unambiguous) (ho : o ∈ t.options) (hcomma : ',' ∉ o.label.toList) :
    t.ReadsAs o := by
  have hlabel : Text.Clean o.label := ht.names o ho
  have hkeys : PropertyKind.optionKeys o.label = [o.label] := by
    rw [PropertyKind.optionKeys_of_no_comma (hlabel.2.symm ▸ hlabel.ne_empty) hcomma, hlabel.2]
  rw [ReadsAs, hkeys]
  exact ⟨List.cons_ne_nil _ _, by simpa using names_label ht ho⟩

/-- an option that a key without a comma names has its identifier or its label without one -/
theorem Names.no_comma {key : String} (h : t.Names key o) (hkey : ',' ∉ key.toList) :
    ',' ∉ o.id.toList ∨ ',' ∉ o.label.toList := by
  cases h with
  | ident h =>
    obtain ⟨-, -, -, rfl, -⟩ := h
    exact .inl hkey
  | label _ h =>
    obtain ⟨-, -, -, hsame, -⟩ := h
    exact .inr fun hcomma => hkey (comma_mem_of_sameIgnoringCase hsame hcomma)

end PropertyTemplate

namespace PropertyKind

variable {t : PropertyTemplate} {ms : Members} {raw key : String} {keys keys' ids : List String} {o : SelectOption}
  {os : List SelectOption}

theorem optionIds_append :
    optionIds t ids (keys ++ keys') = (optionIds t ids keys).bind fun ids => optionIds t ids keys' := by
  induction keys generalizing ids with
  | nil => rfl
  | cons key keys ih =>
    rw [List.cons_append, optionIds, optionIds]
    cases optionId t key with
    | error e => rfl
    | ok id => exact ih

/-- keys of an option that is collected already add nothing -/
theorem optionIds_again (hkeys : ∀ key ∈ keys, t.Names key o) (hmem : o.id ∈ ids) : optionIds t ids keys = .ok ids := by
  induction keys with
  | nil => rfl
  | cons key keys ih =>
    obtain ⟨hkey, hrest⟩ := List.forall_mem_cons.1 hkeys
    rw [optionIds, optionId_of_names hkey]
    simpa [bind, Except.bind, hmem] using ih hrest

theorem optionIds_label (hreads : t.ReadsAs o) (hnew : o.id ∉ ids) :
    optionIds t ids (optionKeys o.label) = .ok (ids ++ [o.id]) := by
  obtain ⟨hne, hnames⟩ := hreads
  cases hkeys : optionKeys o.label with
  | nil => exact absurd hkeys hne
  | cons key keys =>
    rw [hkeys, List.forall_mem_cons] at hnames
    rw [optionIds, optionId_of_names hnames.1]
    simpa [bind, Except.bind, hnew] using optionIds_again hnames.2 (List.mem_append_right ids List.mem_cons_self)

theorem optionIds_labels (hreads : ∀ o ∈ os, t.ReadsAs o) (hnodup : (ids ++ os.map (·.id)).Nodup) :
    optionIds t ids ((os.map (·.label)).flatMap optionKeys) = .ok (ids ++ os.map (·.id)) := by
  induction os generalizing ids with
  | nil => simp [optionIds]
  | cons o os ih =>
    obtain ⟨ho, hrest⟩ := List.forall_mem_cons.1 hreads
    rw [List.map_cons, List.append_cons] at hnodup
    have hnew : o.id ∉ ids := fun hmem =>
      (List.nodup_append.1 (List.nodup_append.1 hnodup).1).2.2 o.id hmem o.id List.mem_cons_self rfl
    rw [List.map_cons, List.flatMap_cons, optionIds_append, optionIds_label ho hnew, Except.bind, ih hrest hnodup,
      List.map_cons, List.append_assoc, List.singleton_append]

/-! ## Shown and read back -/

def choiceLabels (t : PropertyTemplate) (vs : List Json) : List String :=
  (vs.filterMap Json.string?).map (optionLabel t)

theorem display?_array (vs : List Json) : multiSelect.display? (some (.array vs)) t ms =
    if choiceLabels t vs = [] then none else some (", ".intercalate (choiceLabels t vs)) := rfl

theorem optionLabel_of_names {id : String} (h : t.Names id o) : optionLabel t id = o.label := by
  rw [optionLabel, PropertyTemplate.option?_eq_some_iff.2 h]
  rfl

theorem display?_choices (ht : t.Unambiguous) (hmem : ∀ o ∈ os, o ∈ t.options) (hne : os ≠ []) :
    multiSelect.display? (some (.array ((os.map (·.id)).map .string))) t ms =
      some (", ".intercalate (os.map (·.label))) := by
  have hlabels : choiceLabels t ((os.map (·.id)).map .string) = os.map (·.label) := by
    have hstrings : ∀ ids : List String, (ids.map Json.string).filterMap Json.string? = ids := fun ids => by
      rw [List.filterMap_map]
      exact List.filterMap_some
    rw [choiceLabels, hstrings, List.map_map]
    exact List.map_congr_left fun o ho => optionLabel_of_names (PropertyTemplate.names_ident ht (hmem o ho))
  rw [display?_array, hlabels, if_neg (by simpa using hne)]

theorem parse_labels (hreads : ∀ o ∈ os, t.ReadsAs o) (hnodup : (os.map (·.id)).Nodup) :
    multiSelect.parse (", ".intercalate (os.map (·.label))) t ms = .ok (.array ((os.map (·.id)).map .string)) := by
  rw [parse_multiSelect, optionKeys_intercalate, optionIds_labels hreads (by simpa using hnodup)]
  rfl

theorem exists_map_eq_of_forall_mem {ids : List String} {os : List SelectOption} (h : ∀ id ∈ ids, id ∈ os.map (·.id)) :
    ∃ os' : List SelectOption, os'.map (·.id) = ids ∧ ∀ o ∈ os', o ∈ os := by
  induction ids with
  | nil => exact ⟨[], rfl, by simp⟩
  | cons id ids ih =>
    obtain ⟨hid, hrest⟩ := List.forall_mem_cons.1 h
    obtain ⟨o, ho, rfl⟩ := List.mem_map.1 hid
    obtain ⟨os', rfl, hos'⟩ := ih hrest
    exact ⟨o :: os', rfl, List.forall_mem_cons.2 ⟨ho, hos'⟩⟩

/-- what an accepted input selects: options that its keys name, none twice -/
theorem exists_options (h : multiSelect.parse raw t ms = .ok (.array (ids.map .string))) :
    ∃ os : List SelectOption, os.map (·.id) = ids ∧ ids.Nodup ∧ ∀ o ∈ os, ∃ key ∈ optionKeys raw, t.Names key o := by
  obtain ⟨named, ids', hnamed, hids, hv⟩ := parse_multiSelect_eq_ok_iff.1 h
  have hinj : Function.Injective Json.string := fun _ _ => Json.string.inj
  obtain rfl := hinj.list_map (Json.array.inj hv)
  obtain ⟨os, hos, hmem⟩ := exists_map_eq_of_forall_mem fun id hid => (hids.same id).1 hid
  exact ⟨os, hos, hids.nodup, fun o ho => exists_mem_of_forall₂ hnamed.flip o (hmem o ho)⟩

/-- an identifier without a comma selects its option -/
theorem parse_ident (ht : t.Unambiguous) (ho : o ∈ t.options) (hcomma : ',' ∉ o.id.toList) :
    multiSelect.parse o.id t ms = .ok (.array [.string o.id]) := by
  have hid : Text.Clean o.id := ht.idents o ho
  rw [parse_multiSelect, optionKeys_of_no_comma (hid.2.symm ▸ hid.ne_empty) hcomma, hid.2, optionIds,
    optionId_of_names (PropertyTemplate.names_ident ht ho)]
  rfl

theorem readsAs_of_parse (ht : t.Unambiguous) (ho : o ∈ t.options)
    (h : multiSelect.parse o.label t ms = .ok (.array [.string o.id])) : t.ReadsAs o := by
  obtain ⟨named, ids, hnamed, hids, hv⟩ := parse_multiSelect_eq_ok_iff.1 h
  have hinj : Function.Injective Json.string := fun _ _ => Json.string.inj
  have honly : ids = [o.id] := (hinj.list_map (Json.array.inj hv : [o.id].map Json.string = ids.map Json.string)).symm
  subst honly
  refine ⟨fun hnone => ?_, fun key hkey => ?_⟩
  · -- no key names anything, yet the option is mentioned
    rw [hnone, List.forall₂_nil_left_iff] at hnamed
    subst hnamed
    simpa using (hids.same o.id).1 List.mem_cons_self
  · obtain ⟨o', ho', hnames⟩ := exists_mem_of_forall₂ hnamed key hkey
    have hid : o'.id = o.id := List.mem_singleton.1 ((hids.same o'.id).2 (List.mem_map_of_mem ho'))
    exact PropertyTemplate.eq_of_ident ht hnames.mem ho hid ▸ hnames

/-- options whose labels are read as them are shown back -/
theorem shownBack_choices (ht : t.Unambiguous) (hmem : ∀ o ∈ os, o ∈ t.options) (hne : os ≠ [])
    (hnodup : (os.map (·.id)).Nodup) (hreads : ∀ o ∈ os, t.ReadsAs o) :
    multiSelect.ShownBack t ms (.array ((os.map (·.id)).map .string)) :=
  ⟨_, display?_choices ht hmem hne, parse_labels hreads hnodup⟩

/-- **Choices shown and read back.** Where identifiers and labels tell the options apart, a selection that is stored for
an input is shown by the labels of its options, joined by a comma and a blank. If none of these labels holds a comma,
the text is read as the same selection in the same order. Every selection of the template is read back exactly if each
label with a comma, of an option that can be selected by its identifier, has keys and all of them name that option. -/
theorem shown_choices_read_back (ht : t.Unambiguous) (ms : Members) :
    (∀ (raw : String) (ids : List String), ids ≠ [] → multiSelect.parse raw t ms = .ok (.array (ids.map .string)) →
      ∃ os : List SelectOption, (∀ o ∈ os, o ∈ t.options) ∧ os.map (·.id) = ids ∧
        multiSelect.display? (some (.array (ids.map .string))) t ms = some (", ".intercalate (os.map (·.label))) ∧
        ((∀ o ∈ t.options, o.id ∈ ids → ',' ∉ o.label.toList) →
          multiSelect.parse (", ".intercalate (os.map (·.label))) t ms = .ok (.array (ids.map .string)))) ∧
    ((∀ (raw : String) (ids : List String), ids ≠ [] → multiSelect.parse raw t ms = .ok (.array (ids.map .string)) →
        multiSelect.ShownBack t ms (.array (ids.map .string))) ↔
      ∀ o ∈ t.options, ',' ∈ o.label.toList → ',' ∉ o.id.toList → t.ReadsAs o) := by
  refine ⟨fun raw ids hne hparse => ?_, fun hback o ho _ hident => ?_, fun hlabels raw ids hne hparse => ?_⟩
  · obtain ⟨os, rfl, hnodup, hnamed⟩ := exists_options hparse
    have hmem : ∀ o ∈ os, o ∈ t.options := fun o ho => (hnamed o ho).elim fun _ h => h.2.mem
    refine ⟨os, hmem, rfl, display?_choices ht hmem (by simpa using hne), fun hcommas => ?_⟩
    refine parse_labels (fun o ho => ?_) hnodup
    exact PropertyTemplate.readsAs_of_no_comma ht (hmem o ho) (hcommas o (hmem o ho) (List.mem_map_of_mem ho))
  · -- the option selected by its identifier is shown by its label
    obtain ⟨s, hshown, hread⟩ := hback o.id [o.id] (List.cons_ne_nil _ _) (parse_ident ht ho hident)
    have hlabel : multiSelect.display? (some (.array (([o].map (·.id)).map .string))) t ms =
        some (", ".intercalate ([o].map (·.label))) := display?_choices ht (by simpa using ho) (List.cons_ne_nil _ _)
    obtain rfl : s = o.label := Option.some.inj (hshown.symm.trans hlabel)
    exact readsAs_of_parse ht ho hread
  · obtain ⟨os, rfl, hnodup, hnamed⟩ := exists_options hparse
    have hmem : ∀ o ∈ os, o ∈ t.options := fun o ho => (hnamed o ho).elim fun _ h => h.2.mem
    refine shownBack_choices ht hmem (by simpa using hne) hnodup fun o ho => ?_
    by_cases hcomma : ',' ∈ o.label.toList
    · obtain ⟨key, hkey, hnames⟩ := hnamed o ho
      rcases hnames.no_comma (no_comma_of_mem_optionKeys hkey) with hident | hlabel
      · exact hlabels o (hmem o ho) hcomma hident
      · exact absurd hcomma hlabel
    · exact PropertyTemplate.readsAs_of_no_comma ht (hmem o ho) hcomma

/-- two colours, and the two together as a choice of its own -/
def palette : PropertyTemplate :=
  ⟨"p", "Colours", "multiSelect", [⟨"o1", "Red, Blue", ""⟩, ⟨"o2", "Red", ""⟩, ⟨"o3", "Blue", ""⟩]⟩

theorem palette_unambiguous : palette.Unambiguous := ⟨by decide, by decide, by decide, by decide, by decide⟩

theorem single_colours_read_back : palette.Unambiguous ∧ ["o3", "o2"] ≠ [] ∧
    multiSelect.parse "blue,,o2" palette .empty = .ok (.array (["o3", "o2"].map .string)) ∧
    (∀ o ∈ palette.options, o.id ∈ ["o3", "o2"] → ',' ∉ o.label.toList) ∧
    ∃ s, multiSelect.display? (some (.array (["o3", "o2"].map .string))) palette .empty = some s ∧
      multiSelect.parse s palette .empty = .ok (.array (["o3", "o2"].map .string)) := by
  have hparse : multiSelect.parse "blue,,o2" palette .empty = .ok (.array (["o3", "o2"].map .string)) := by decide
  have hcommas : ∀ o ∈ palette.options, o.id ∈ ["o3", "o2"] → ',' ∉ o.label.toList := by decide
  obtain ⟨os, -, -, hshown, hread⟩ := (shown_choices_read_back palette_unambiguous .empty).1 _ _ (by decide) hparse
  exact ⟨palette_unambiguous, by decide, hparse, hcommas, _, hshown, hread hcommas⟩

/-- a label with a comma: the selection is shown as the text of two other options, and the text selects these -/
theorem divided_label_reads_as_others : palette.Unambiguous ∧
    multiSelect.parse "o1" palette .empty = .ok (.array [.string "o1"]) ∧
    multiSelect.display? (some (.array [.string "o1"])) palette .empty = some "Red, Blue" ∧
    multiSelect.parse "Red, Blue" palette .empty = .ok (.array [.string "o2", .string "o3"]) :=
  ⟨palette_unambiguous, by decide, by decide, by decide⟩

/-! ## Options that are gone -/

/-- **Choices without an option.** An identifier that no option has is shown by a selection as one text, and by a
multiple selection as the same text in its place. The text is the label of the first option whose label is the
identifier up to case; so it is the identifier itself exactly when that label is spelled like it, or no label is
alike. -/
theorem stray_choice_shown_raw_iff {id : String} (hid : Text.Clean id) (hstray : ∀ o ∈ t.options, o.id ≠ id)
    (ms : Members) :
    ∃ s, select.display? (some (.string id)) t ms = some s ∧
      (∀ before after, multiSelect.display? (some (.array (before ++ .string id :: after))) t ms =
        some (", ".intercalate (choiceLabels t before ++ s :: choiceLabels t after))) ∧
      (∀ o, Foremost (fun o => PropertyTemplate.sameIgnoringCase o.label id = true) t.options o → s = o.label) ∧
      (s = id ↔
        ∀ o, Foremost (fun o => PropertyTemplate.sameIgnoringCase o.label id = true) t.options o → o.label = id) := by
  have halike : ∀ o, Foremost (fun o => PropertyTemplate.sameIgnoringCase o.label id = true) t.options o →
      optionLabel t id = o.label := fun o ho => optionLabel_of_names (.label hstray ho)
  refine ⟨optionLabel t id, ?_, fun before after => ?_, halike, fun hraw o ho => (halike o ho).symm.trans hraw,
    fun hraw => ?_⟩
  · rw [display?, nonBlank?_clean hid]
    rfl
  · have hlabels : choiceLabels t (before ++ .string id :: after) =
        choiceLabels t before ++ optionLabel t id :: choiceLabels t after := by
      simp [choiceLabels, Json.string?]
    rw [display?_array, hlabels, if_neg (by simp)]
  · cases hoption : t.option? id with
    | none => rw [optionLabel, hoption]; rfl
    | some o =>
      have hnames := PropertyTemplate.option?_eq_some_iff.1 hoption
      rw [optionLabel_of_names hnames]
      cases hnames with
      | ident h => exact absurd h.holds (hstray o h.mem)
      | label _ h => exact hraw o h

def progress (id label : String) : PropertyTemplate := ⟨"p", "Status", "select", [⟨id, label, ""⟩]⟩

theorem withdrawn_choice_shown_raw : Text.Clean "gone" ∧ (∀ o ∈ (progress "o2" "Done").options, o.id ≠ "gone") ∧
    select.display? (some (.string "gone")) (progress "o2" "Done") .empty = some "gone" ∧
    multiSelect.display? (some (.array [.string "o2", .string "gone"])) (progress "o2" "Done") .empty =
      some "Done, gone" := by
  have hclean : Text.Clean "gone" := by decide
  have hstray : ∀ o ∈ (progress "o2" "Done").options, o.id ≠ "gone" := by decide
  obtain ⟨s, hselect, hmulti, -, hraw⟩ := stray_choice_shown_raw_iff hclean hstray .empty
  have hnone : ∀ o, ¬ Foremost (fun o => PropertyTemplate.sameIgnoringCase o.label "gone" = true)
      (progress "o2" "Done").options o := fun o ho => by
    obtain rfl := List.mem_singleton.1 ho.mem
    exact absurd ho.holds (by decide)
  obtain rfl := hraw.2 fun o ho => absurd ho (hnone o)
  exact ⟨hclean, hstray, hselect, hmulti [.string "o2"] []⟩

end PropertyKind

namespace Traffic

/-- a choice is made, and its option is replaced by another one with an alike label -/
def withdrawn : List Event :=
  [.arrive (.putTemplate (PropertyKind.progress "done" "Finished")), .step 0 ⟨0, ⟨1⟩, .nil⟩,
    .arrive (.createCard (some "a") none), .step 1 ⟨0, ⟨2⟩, .nil⟩, .arrive (.setProperty ⟨2⟩ "p" "Finished"),
    .step 2 ⟨0, ⟨3⟩, .nil⟩, .step 2 ⟨0, ⟨4⟩, .nil⟩, .step 2 ⟨0, ⟨5⟩, .nil⟩, .step 2 ⟨0, ⟨6⟩, .nil⟩,
    .arrive (.putTemplate (PropertyKind.progress "o2" "Done")), .step 3 ⟨0, ⟨7⟩, .nil⟩]

def finished : Card := { Card.fresh ⟨2⟩ .nil "a" with properties := .ofList [("p", .string "done")] }

/-- a choice whose option is gone: the card shows it as the option that came after it -/
theorem withdrawn_choice_shown_as_another : Text.Clean "done" ∧
    (new.run (.ofConfig .default) withdrawn).app.board.templates = [PropertyKind.progress "o2" "Done"] ∧
    (∀ o ∈ (PropertyKind.progress "o2" "Done").options, o.id ≠ "done") ∧
    finished.property? "p" = some (.string "done") ∧
    (new.run (.ofConfig .default) withdrawn).Answers (.ofConfig .default) (.getCard finished.id)
      (.shownCard finished [] [⟨"p", "Status", ⟨.display, .text "Done"⟩⟩]) ∧
    PropertyKind.multiSelect.display? (some (.array [.string "done"])) (PropertyKind.progress "o2" "Done") .empty =
      some "Done" := by
  have hcard : (new.run (.ofConfig .default) withdrawn).app.store.card? finished.id = some finished := rfl
  exact ⟨by decide, rfl, by decide, rfl, answers_getCard hcard, by decide⟩

end Traffic

end Corkboard
