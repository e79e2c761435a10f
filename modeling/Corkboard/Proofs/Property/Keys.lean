/-
How choices are read.

A multiple selection is typed as keys between commas. Which options do the keys name, in which order are these stored,
and what is told when a key names none? Identifiers may repeat and a label may be the identifier of another option, so a
key is looked up in two stages, and two keys may name one option.

- `keyed_iff`: the keys of an input are told by its pieces between commas, without the function that cuts it.
- `option?_eq_some_iff`: the two stages of the look-up, as `Names`.
- `optionIds_cases`: the loop over the keys ends with all options named, or at the first key that names none.
- `choices_read`: exactly when an input is accepted, what is stored for it, which error tells of it otherwise, and that
  a selection of one option agrees.
-/
import Corkboard.Property.Kind
import Mathlib.Data.List.Forall2
import Mathlib.Data.List.Nodup

namespace Corkboard

/-! ## The first of its kind -/

section Foremost

variable {α : Type} {as : List α} {a a' : α}

/-- the first element of a list that has a property -/
def Foremost (p : α → Prop) (as : List α) (a : α) : Prop :=
  ∃ before after, as = before ++ a :: after ∧ p a ∧ ∀ b ∈ before, ¬ p b

theorem find?_eq_some_iff_foremost {p : α → Bool} : as.find? p = some a ↔ Foremost (p · = true) as a := by
  rw [List.find?_eq_some_iff_append]
  constructor
  · rintro ⟨hp, before, after, has, hbefore⟩
    exact ⟨before, after, has, hp, fun b hb => by simpa using hbefore b hb⟩
  · rintro ⟨before, after, has, hp, hbefore⟩
    exact ⟨hp, before, after, has, fun b hb => by simpa using hbefore b hb⟩

theorem Foremost.mem {p : α → Prop} (h : Foremost p as a) : a ∈ as := by
  obtain ⟨before, after, rfl, -⟩ := h
  exact List.mem_append_right _ List.mem_cons_self

theorem Foremost.holds {p : α → Prop} (h : Foremost p as a) : p a := by
  obtain ⟨-, -, -, hp, -⟩ := h
  exact hp

theorem Foremost.unique {p : α → Prop} (h : Foremost p as a) (h' : Foremost p as a') : a = a' := by
  classical
  have hfind : ∀ {b}, Foremost p as b → as.find? (fun a => decide (p a)) = some b := fun hb =>
    find?_eq_some_iff_foremost.2 (by simpa using hb)
  exact Option.some.inj ((hfind h).symm.trans (hfind h'))

end Foremost

theorem exists_mem_of_forall₂ {α β : Type} {R : α → β → Prop} {as : List α} {bs : List β} (h : List.Forall₂ R as bs) :
    ∀ a ∈ as, ∃ b ∈ bs, R a b := by
  induction h with
  | nil => simp
  | @cons a b as bs hr _ ih =>
    refine List.forall_mem_cons.2 ⟨⟨b, List.mem_cons_self, hr⟩, fun a' ha' => ?_⟩
    obtain ⟨b', hb', hr'⟩ := ih a' ha'
    exact ⟨b', List.mem_cons_of_mem _ hb', hr'⟩

/-! ## Mentions -/

/-- what is mentioned, each once, in the order in which it is first mentioned -/
structure FirstMentions (mentions ids : List String) : Prop where
  same : ∀ id, id ∈ ids ↔ id ∈ mentions
  inOrder : ids.Pairwise fun a b => mentions.idxOf a < mentions.idxOf b

namespace FirstMentions

variable {mentions ids ids' : List String} {id : String}

theorem nil : FirstMentions [] [] := ⟨fun _ => Iff.rfl, .nil⟩

theorem nodup (h : FirstMentions mentions ids) : ids.Nodup :=
  h.inOrder.imp fun hlt heq => absurd (heq ▸ hlt) (Nat.lt_irrefl _)

theorem unique (h : FirstMentions mentions ids) (h' : FirstMentions mentions ids') : ids = ids' := by
  have hperm : ids.Perm ids' :=
    (List.perm_ext_iff_of_nodup h.nodup h'.nodup).2 fun id => (h.same id).trans (h'.same id).symm
  exact hperm.eq_of_pairwise (fun a b _ _ hab hba => absurd hab (Nat.lt_asymm hba)) h.inOrder h'.inOrder

theorem inOrder_concat (h : FirstMentions mentions ids) (id : String) :
    ids.Pairwise fun a b => (mentions ++ [id]).idxOf a < (mentions ++ [id]).idxOf b := by
  refine h.inOrder.imp_of_mem fun ha hb hlt => ?_
  rwa [List.idxOf_append_of_mem ((h.same _).1 ha), List.idxOf_append_of_mem ((h.same _).1 hb)]

theorem again (h : FirstMentions mentions ids) (hid : id ∈ ids) : FirstMentions (mentions ++ [id]) ids where
  same a := by
    rw [List.mem_append, List.mem_singleton, ← h.same a]
    constructor
    · exact .inl
    · rintro (ha | rfl)
      · exact ha
      · exact hid
  inOrder := h.inOrder_concat id

theorem add (h : FirstMentions mentions ids) (hid : id ∉ ids) : FirstMentions (mentions ++ [id]) (ids ++ [id]) where
  same a := by rw [List.mem_append, List.mem_append, h.same a]
  inOrder := by
    refine List.pairwise_append.2 ⟨h.inOrder_concat id, List.pairwise_singleton _ _, fun a ha b hb => ?_⟩
    obtain rfl := List.mem_singleton.1 hb
    have hmem := (h.same a).1 ha
    rw [List.idxOf_append_of_mem hmem, List.idxOf_append_of_notMem fun hb => hid ((h.same b).2 hb)]
    exact Nat.lt_add_right _ (List.idxOf_lt_length_of_mem hmem)

end FirstMentions

/-! ## Keys -/

namespace Text

/-- pieces without a comma that make up the text when they are joined by commas -/
structure Pieces (raw : String) (pieces : List String) : Prop where
  nonempty : pieces ≠ []
  noComma : ∀ p ∈ pieces, ',' ∉ p.toList
  joined : ",".intercalate pieces = raw

theorem false_of_mem_splitOnP {p : Char → Bool} {cs piece : List Char} (h : piece ∈ cs.splitOnP p) :
    ∀ c ∈ piece, p c = false := by
  induction cs generalizing piece with
  | nil =>
    obtain rfl : piece = [] := by simpa [List.splitOnP_nil] using h
    simp
  | cons c cs ih =>
    rw [List.splitOnP_cons_eq_if_modifyHead] at h
    split at h
    · rcases List.mem_cons.1 h with rfl | h
      · simp
      · exact ih h
    · rename_i hc
      obtain ⟨first, rest, hsplit⟩ := List.exists_cons_of_ne_nil (List.splitOnP_ne_nil p cs)
      rw [hsplit, List.modifyHead_cons] at h
      rcases List.mem_cons.1 h with rfl | h
      · intro d hd
        rcases List.mem_cons.1 hd with rfl | hd
        · exact Bool.eq_false_iff.2 hc
        · exact ih (hsplit ▸ List.mem_cons_self) d hd
      · exact ih (hsplit ▸ List.mem_cons_of_mem _ h)

/-- a text has one list of pieces: the runs that the cutting at commas gives -/
theorem pieces_iff {raw : String} {pieces : List String} :
    Pieces raw pieces ↔ pieces = (raw.toList.splitOnP (· = ',')).map String.ofList := by
  have hcut : raw.toList.splitOnP (· = ',') = raw.toList.splitOn ',' := by
    rw [List.splitOn_eq_splitOnP]
    rfl
  constructor
  · intro h
    have hjoined : raw.toList = [','].intercalate (pieces.map String.toList) := by
      rw [← h.joined, String.toList_intercalate]
      rfl
    have hno : ∀ p ∈ pieces.map String.toList, ',' ∉ p := by simpa using h.noComma
    rw [hcut, hjoined, List.splitOn_intercalate ',' hno (by simpa using h.nonempty)]
    simp
  · rintro rfl
    refine ⟨by simp [List.splitOnP_ne_nil], ?_, ?_⟩
    · simp only [List.mem_map, forall_exists_index, and_imp, forall_apply_eq_imp_iff₂, String.toList_ofList]
      intro piece hpiece hcomma
      exact absurd (false_of_mem_splitOnP hpiece ',' hcomma) (by decide)
    · apply String.toList_injective
      rw [String.toList_intercalate, hcut, List.map_map]
      simp

end Text

/-- the keys of an input: its pieces between commas, trimmed, without those of which nothing remains -/
def Keyed (raw : String) (keys : List String) : Prop :=
  ∃ pieces, Text.Pieces raw pieces ∧ keys = (pieces.map Text.trim).filter (· ≠ "")

theorem keyed_iff {raw : String} {keys : List String} : Keyed raw keys ↔ keys = PropertyKind.optionKeys raw := by
  have htrim : Text.trim ∘ String.ofList = fun cs => String.ofList (Text.trimChars cs) := by
    funext cs
    rw [Function.comp_apply, Text.trim, String.toList_ofList]
  simp only [Keyed, Text.pieces_iff, exists_eq_left, List.map_map, htrim, PropertyKind.optionKeys]

/-! ## Options -/

namespace PropertyTemplate

variable {t : PropertyTemplate} {key : String} {o o' : SelectOption}

/-- the option that a key names: the first that has it as its identifier, and when none has, the first that has it as
its label up to the case of ASCII letters -/
inductive Names (t : PropertyTemplate) (key : String) (o : SelectOption) : Prop
  | ident (h : Foremost (fun o => o.id = key) t.options o)
  | label (hnone : ∀ d ∈ t.options, d.id ≠ key)
      (h : Foremost (fun o => sameIgnoringCase o.label key = true) t.options o)

theorem option?_eq_some_iff : t.option? key = some o ↔ t.Names key o := by
  have hident : t.options.find? (·.id = key) = some o ↔ Foremost (fun o => o.id = key) t.options o := by
    rw [find?_eq_some_iff_foremost]
    simp only [decide_eq_true_eq]
  have hnone : t.options.find? (·.id = key) = none ↔ ∀ d ∈ t.options, d.id ≠ key := by simp
  rw [option?, Option.or_eq_some_iff, hident, hnone, find?_eq_some_iff_foremost]
  constructor
  · rintro (h | ⟨hnone, h⟩)
    · exact .ident h
    · exact .label hnone h
  · rintro (h | ⟨hnone, h⟩)
    · exact .inl h
    · exact .inr ⟨hnone, h⟩

theorem option?_eq_none_iff : t.option? key = none ↔ ¬ ∃ o, t.Names key o := by
  simp only [Option.eq_none_iff_forall_ne_some, ne_eq, option?_eq_some_iff, not_exists]

theorem Names.unique (h : t.Names key o) (h' : t.Names key o') : o = o' :=
  Option.some.inj ((option?_eq_some_iff.2 h).symm.trans (option?_eq_some_iff.2 h'))

theorem Names.unique_of_forall₂ {keys : List String} {os os' : List SelectOption} (h : List.Forall₂ t.Names keys os)
    (h' : List.Forall₂ t.Names keys os') : os = os' :=
  List.right_unique_forall₂' (fun _ _ _ ho ho' => ho.unique ho') h h'

theorem Names.of_forall₂ {keys : List String} {os : List SelectOption} (h : List.Forall₂ t.Names keys os) :
    ∀ key ∈ keys, ∃ o, t.Names key o := fun key hkey => (exists_mem_of_forall₂ h key hkey).imp fun _ ho => ho.2

theorem Names.mem (h : t.Names key o) : o ∈ t.options := by
  cases h with
  | ident h => exact h.mem
  | label _ h => exact h.mem

end PropertyTemplate

/-! ## Reading -/

namespace PropertyKind

variable {t : PropertyTemplate} {ms : Members} {raw key : String} {keys mentions ids : List String} {o : SelectOption}

theorem optionId_of_names (h : t.Names key o) : optionId t key = .ok o.id := by
  rw [optionId, PropertyTemplate.option?_eq_some_iff.2 h]

theorem optionId_of_unnamed (h : ¬ ∃ o, t.Names key o) : optionId t key = .error (.unknownOption key) := by
  rw [optionId, PropertyTemplate.option?_eq_none_iff.2 h]

/-- the loop over the keys: each names an option and the identifiers are collected, or it ends at the first that names
none -/
theorem optionIds_cases (hids : FirstMentions mentions ids) (keys : List String) :
    (∃ os ids', List.Forall₂ t.Names keys os ∧ FirstMentions (mentions ++ os.map (·.id)) ids' ∧
      optionIds t ids keys = .ok ids') ∨
    ∃ key, Foremost (fun key => ¬ ∃ o, t.Names key o) keys key ∧
      optionIds t ids keys = .error (.unknownOption key) := by
  induction keys generalizing mentions ids with
  | nil => exact .inl ⟨[], ids, .nil, by simpa using hids, rfl⟩
  | cons key keys ih =>
    by_cases hkey : ∃ o, t.Names key o
    · obtain ⟨o, ho⟩ := hkey
      -- the identifiers after this key, and what they are the first mentions of
      obtain ⟨ids₁, hids₁, hloop⟩ : ∃ ids₁, FirstMentions (mentions ++ [o.id]) ids₁ ∧
          optionIds t ids (key :: keys) = optionIds t ids₁ keys := by
        rw [optionIds, optionId_of_names ho]
        by_cases hmem : o.id ∈ ids
        · exact ⟨ids, hids.again hmem, by simp [bind, Except.bind, hmem]⟩
        · exact ⟨ids ++ [o.id], hids.add hmem, by simp [bind, Except.bind, hmem]⟩
      rw [hloop]
      rcases ih hids₁ with ⟨os, ids', hos, hids', hread⟩ | ⟨missed, ⟨before, after, hkeys, hmissed, hbefore⟩, hread⟩
      · exact .inl ⟨o :: os, ids', .cons ho hos, by simpa using hids', hread⟩
      · refine .inr ⟨missed, ⟨key :: before, after, by rw [hkeys, List.cons_append], hmissed, ?_⟩, hread⟩
        rw [List.forall_mem_cons]
        exact ⟨not_not_intro ⟨o, ho⟩, hbefore⟩
    · refine .inr ⟨key, ⟨[], keys, rfl, hkey, by simp⟩, ?_⟩
      rw [optionIds, optionId_of_unnamed hkey]
      rfl

theorem parse_multiSelect :
    multiSelect.parse raw t ms = (optionIds t [] (optionKeys raw)).map fun ids => .array (ids.map .string) :=
  rfl

/-- what becomes of an input: the options of all its keys, or the first key that names none -/
theorem parse_cases_multiSelect (t : PropertyTemplate) (ms : Members) (raw : String) :
    (∃ os ids, List.Forall₂ t.Names (optionKeys raw) os ∧ FirstMentions (os.map (·.id)) ids ∧
      multiSelect.parse raw t ms = .ok (.array (ids.map .string))) ∨
    ∃ key, Foremost (fun key => ¬ ∃ o, t.Names key o) (optionKeys raw) key ∧
      multiSelect.parse raw t ms = .error (.unknownOption key) := by
  rcases optionIds_cases (t := t) .nil (optionKeys raw) with ⟨os, ids, hos, hids, hread⟩ | ⟨key, hkey, hread⟩
  · exact .inl ⟨os, ids, hos, by simpa using hids, by rw [parse_multiSelect, hread]; rfl⟩
  · exact .inr ⟨key, hkey, by rw [parse_multiSelect, hread]; rfl⟩

/-- the first key that names no option rules out that all do -/
theorem not_named_of_foremost (h : Foremost (fun key => ¬ ∃ o, t.Names key o) keys key) :
    ¬ ∀ key ∈ keys, ∃ o, t.Names key o := fun hall => h.holds (hall key h.mem)

theorem parse_multiSelect_eq_ok_iff {v : Json} : multiSelect.parse raw t ms = .ok v ↔
    ∃ os ids, List.Forall₂ t.Names (optionKeys raw) os ∧ FirstMentions (os.map (·.id)) ids ∧
      v = .array (ids.map .string) := by
  rcases parse_cases_multiSelect t ms raw with ⟨os, ids, hos, hids, hparse⟩ | ⟨key, hkey, hparse⟩
  · rw [hparse]
    constructor
    · rintro ⟨⟩
      exact ⟨os, ids, hos, hids, rfl⟩
    · rintro ⟨os', ids', hos', hids', rfl⟩
      obtain rfl := PropertyTemplate.Names.unique_of_forall₂ hos hos'
      rw [hids.unique hids']
  · rw [hparse]
    constructor
    · rintro ⟨⟩
    · rintro ⟨os, -, hos, -⟩
      exact absurd (PropertyTemplate.Names.of_forall₂ hos) (not_named_of_foremost hkey)

theorem parse_multiSelect_eq_error_iff {e : PropertyError} : multiSelect.parse raw t ms = .error e ↔
    ∃ key, Foremost (fun key => ¬ ∃ o, t.Names key o) (optionKeys raw) key ∧ e = .unknownOption key := by
  rcases parse_cases_multiSelect t ms raw with ⟨os, ids, hos, hids, hparse⟩ | ⟨key, hkey, hparse⟩
  · rw [hparse]
    constructor
    · rintro ⟨⟩
    · rintro ⟨key, hkey, -⟩
      exact absurd (PropertyTemplate.Names.of_forall₂ hos) (not_named_of_foremost hkey)
  · rw [hparse]
    constructor
    · rintro ⟨⟩
      exact ⟨key, hkey, rfl⟩
    · rintro ⟨key', hkey', rfl⟩
      rw [hkey.unique hkey']

/-- an input without a comma is one key, or none when it is blank -/
theorem optionKeys_of_one_piece (hcomma : ',' ∉ raw.toList) : optionKeys raw = [Text.trim raw].filter (· ≠ "") := by
  have hpieces : Text.Pieces raw [raw] := ⟨by simp, by simpa using hcomma, String.intercalate_singleton⟩
  exact (keyed_iff.1 ⟨[raw], hpieces, rfl⟩).symm

theorem optionKeys_of_no_comma (hraw : Text.trim raw ≠ "") (hcomma : ',' ∉ raw.toList) :
    optionKeys raw = [Text.trim raw] := by
  simp [optionKeys_of_one_piece hcomma, hraw]

/-- of one key, a selection of one option stores what a multiple selection stores in a list -/
theorem parse_select_iff (hraw : Text.trim raw ≠ "") (hcomma : ',' ∉ raw.toList) (v : Json) :
    select.parse raw t ms = .ok v ↔ multiSelect.parse raw t ms = .ok (.array [v]) := by
  rw [parse_multiSelect, optionKeys_of_no_comma hraw hcomma]
  simp only [parse, hraw, if_false, optionIds]
  cases optionId t (Text.trim raw) with
  | error e => simp [Except.map, bind, Except.bind]
  | ok id => simp [Except.map, bind, Except.bind]

/-- **How choices are read.** The keys of an input are what its pieces between commas leave when trimmed, if anything. A
multiple selection accepts the input exactly when each key names an option, and stores the identifiers of these options
in the order in which they are first mentioned, none twice; otherwise it tells of the first key that names none. Of an
input without a comma that is not blank, a selection of one option stores a value exactly when a multiple selection
stores the list of that value. -/
theorem choices_read (t : PropertyTemplate) (ms : Members) (raw : String) :
    ∃ keys, (∀ ks, Keyed raw ks ↔ ks = keys) ∧
      ((∃ v, multiSelect.parse raw t ms = .ok v) ↔ ∀ key ∈ keys, ∃ o, t.Names key o) ∧
      (∀ v, multiSelect.parse raw t ms = .ok v ↔ ∃ os ids, List.Forall₂ t.Names keys os ∧
        FirstMentions (os.map (·.id)) ids ∧ ids.Nodup ∧ v = .array (ids.map .string)) ∧
      (∀ e, multiSelect.parse raw t ms = .error e ↔
        ∃ key, Foremost (fun key => ¬ ∃ o, t.Names key o) keys key ∧ e = .unknownOption key) ∧
      (Text.isBlank raw = false → ',' ∉ raw.toList →
        ∀ v, select.parse raw t ms = .ok v ↔ multiSelect.parse raw t ms = .ok (.array [v])) := by
  refine ⟨optionKeys raw, fun ks => keyed_iff, ?_, fun v => ?_, fun e => parse_multiSelect_eq_error_iff,
    fun hraw hcomma v => ?_⟩
  · constructor
    · rintro ⟨v, hv⟩
      obtain ⟨os, -, hos, -⟩ := parse_multiSelect_eq_ok_iff.1 hv
      exact PropertyTemplate.Names.of_forall₂ hos
    · intro hnamed
      rcases parse_cases_multiSelect t ms raw with ⟨os, ids, -, -, hparse⟩ | ⟨key, hkey, -⟩
      · exact ⟨_, hparse⟩
      · exact absurd hnamed (not_named_of_foremost hkey)
  · rw [parse_multiSelect_eq_ok_iff]
    constructor
    · rintro ⟨os, ids, hos, hids, rfl⟩
      exact ⟨os, ids, hos, hids, hids.nodup, rfl⟩
    · rintro ⟨os, ids, hos, hids, -, rfl⟩
      exact ⟨os, ids, hos, hids, rfl⟩
  · have htrim : Text.trim raw ≠ "" := by
      rw [ne_eq, Text.trim_eq_empty_iff, hraw]
      exact Bool.false_ne_true
    exact parse_select_iff htrim hcomma v

/-- identifiers that repeat, and labels that are identifiers of other options or differ from them in case -/
def tangled : PropertyTemplate :=
  ⟨"p", "Pick", "multiSelect", [⟨"o1", "Todo", ""⟩, ⟨"o2", "Done", ""⟩, ⟨"o1", "Later", ""⟩, ⟨"todo", "O2", ""⟩]⟩

theorem tangled_choices_read :
    Keyed " done, ,O2,todo ,TODO,o1" ["done", "O2", "todo", "TODO", "o1"] ∧
    (∀ key ∈ ["done", "O2", "todo", "TODO", "o1"], ∃ o, tangled.Names key o) ∧
    multiSelect.parse " done, ,O2,todo ,TODO,o1" tangled .empty =
      .ok (.array [.string "o2", .string "todo", .string "o1"]) ∧
    Text.isBlank "LATER" = false ∧ ',' ∉ "LATER".toList ∧
    select.parse "LATER" tangled .empty = .ok (.string "o1") ∧
    multiSelect.parse "LATER" tangled .empty = .ok (.array [.string "o1"]) := by
  obtain ⟨keys, hkeys, hnamed, -⟩ := choices_read tangled .empty " done, ,O2,todo ,TODO,o1"
  obtain ⟨-, -, -, -, -, hagree⟩ := choices_read tangled .empty "LATER"
  have hkeyed : Keyed " done, ,O2,todo ,TODO,o1" ["done", "O2", "todo", "TODO", "o1"] := keyed_iff.2 (by decide)
  obtain rfl := (hkeys _).1 hkeyed
  have hparse : multiSelect.parse " done, ,O2,todo ,TODO,o1" tangled .empty =
      .ok (.array [.string "o2", .string "todo", .string "o1"]) := by decide
  have hblank : Text.isBlank "LATER" = false := by decide
  have hcomma : ',' ∉ "LATER".toList := by decide
  have hselect : select.parse "LATER" tangled .empty = .ok (.string "o1") := by decide
  exact ⟨hkeyed, hnamed.1 ⟨_, hparse⟩, hparse, hblank, hcomma, hselect, (hagree hblank hcomma _).1 hselect⟩

end PropertyKind

end Corkboard
