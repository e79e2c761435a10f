/-
Saving what an editor shows.

A property is edited as the text that shows it, and what the editor holds is read again when it is saved. Does a value
survive that when nobody typed anything? A selection and a person are shown by name and stored by identifier, so it
takes keys that tell the entries apart: identifiers and names that are not blank and trimmed, no two identifiers the
same, no two names alike, and no name that is the identifier of another entry.

- `entryOf?_ident`, `entryOf?_name`: the look-up of a key, by identifier first and by name after that, finds the entry
  whose identifier or name it is.
- `parse_congr`: the reading of an input depends on its trimmed text alone.
- `parse_shown`: what a type stores for an input is cleared, or is shown as a text that is read as the same value.
- `serve_stages`: a request by itself that writes the value which the card has leaves the store as it is.
- `untouched_saves_same`: what was stored for an input is shown as a text that stores it again, and the request that
  saves the untouched text leaves every card and block as it was.
-/
import Mathlib.Data.List.DropRight
import Corkboard.Proofs.Api.Inputs
import Corkboard.Proofs.Property.Slots

namespace Corkboard

/-! ## Trimmed texts -/

namespace Text

/-- not blank, and without blanks at either end -/
def Clean (s : String) : Prop := isBlank s = false ∧ trim s = s

instance (s : String) : Decidable (Clean s) := inferInstanceAs (Decidable (_ ∧ _))

theorem trimChars_eq (cs : List Char) : trimChars cs = (cs.dropWhile isBlankChar).rdropWhile isBlankChar := rfl

theorem trimChars_trimChars (cs : List Char) : trimChars (trimChars cs) = trimChars cs := by
  -- what the second trimming could take off the front stood at the front after the first one took the blanks off
  have hfront : (trimChars cs).dropWhile isBlankChar = trimChars cs := by
    refine List.dropWhile_eq_self_iff.2 fun hpos => ?_
    have hle : trimChars cs <+: cs.dropWhile isBlankChar := List.rdropWhile_prefix _ _
    rw [hle.getElem hpos]
    exact List.dropWhile_get_zero_not _ _ (hpos.trans_le hle.length_le)
  rw [trimChars_eq (trimChars cs), hfront, trimChars_eq, List.rdropWhile_idempotent]

theorem trim_trim (s : String) : trim (trim s) = trim s := by
  rw [trim, trim, String.toList_ofList, trimChars_trimChars]

theorem Clean.ne_empty {s : String} (h : Clean s) : s ≠ "" := by
  intro he
  have hblank : isBlank s = true := (trim_eq_empty_iff s).1 (h.2.trans he)
  rw [h.1] at hblank
  cases hblank

end Text

/-! ## Keys -/

section Keys

variable {α : Type} {ident name : α → String} {alike : String → String → Bool} {es : List α} {e : α} {key : String}

/-- entries that their keys tell apart -/
structure Unambiguous (ident name : α → String) (alike : String → String → Bool) (es : List α) : Prop where
  idents : ∀ e ∈ es, Text.Clean (ident e)
  names : ∀ e ∈ es, Text.Clean (name e)
  /-- no two identifiers are the same -/
  distinct : es.Pairwise fun d e => ident d ≠ ident e
  /-- no two names are alike -/
  unlike : es.Pairwise fun d e => alike (name d) (name e) = false
  /-- no name is the identifier of another entry -/
  apart : ∀ d ∈ es, ∀ e ∈ es, d ≠ e → name d ≠ ident e

/-- the entry of a key: by identifier, else by name -/
def entryOf? (ident name : α → String) (alike : String → String → Bool) (es : List α) (key : String) : Option α :=
  (es.find? (ident · = key)).or (es.find? fun e => alike (name e) key)

theorem mem_of_entryOf? (h : entryOf? ident name alike es key = some e) : e ∈ es := by
  rcases Option.or_eq_some_iff.1 h with h | ⟨-, h⟩
  · exact List.mem_of_find?_eq_some h
  · exact List.mem_of_find?_eq_some h

theorem find?_of_pairwise {R : α → α → Prop} {p : α → Bool} (hes : es.Pairwise R) (he : e ∈ es) (hp : p e = true)
    (hR : ∀ d, R d e → p d = false) : es.find? p = some e := by
  obtain ⟨before, after, rfl⟩ := List.append_of_mem he
  refine List.find?_eq_some_iff_append.2 ⟨hp, before, after, rfl, fun d hd => ?_⟩
  rw [hR d ((List.pairwise_append.1 hes).2.2 d hd e List.mem_cons_self)]
  rfl

theorem entryOf?_ident (hes : Unambiguous ident name alike es) (he : e ∈ es) :
    entryOf? ident name alike es (ident e) = some e := by
  have hfind : es.find? (ident · = ident e) = some e :=
    find?_of_pairwise hes.distinct he (decide_eq_true rfl) fun d hne => decide_eq_false hne
  rw [entryOf?, hfind, Option.some_or]

theorem entryOf?_name (halike : ∀ s, alike s s = true) (hes : Unambiguous ident name alike es) (he : e ∈ es) :
    entryOf? ident name alike es (name e) = some e := by
  cases hident : es.find? (ident · = name e) with
  | some d =>
    -- an identifier that is the name of an entry is that entry's own
    have hd : ident d = name e := by simpa using List.find?_some hident
    have hde : e = d := by
      by_contra hne
      exact hes.apart e he d (List.mem_of_find?_eq_some hident) hne hd.symm
    rw [entryOf?, hident, hde, Option.some_or]
  | none =>
    have hfind : es.find? (fun d => alike (name d) (name e)) = some e :=
      find?_of_pairwise hes.unlike he (halike _) fun d hd => hd
    rw [entryOf?, hident, hfind, Option.none_or]

end Keys

/-- the options of a template are told apart by their keys, the labels without regard to case -/
def PropertyTemplate.Unambiguous (t : PropertyTemplate) : Prop :=
  Corkboard.Unambiguous SelectOption.id SelectOption.label sameIgnoringCase t.options

def Members.Unambiguous (ms : Members) : Prop :=
  Corkboard.Unambiguous Prod.fst Prod.snd (fun s t => decide (s = t)) ms.entries

theorem PropertyTemplate.option?_eq (t : PropertyTemplate) (key : String) :
    t.option? key = entryOf? SelectOption.id SelectOption.label sameIgnoringCase t.options key := rfl

theorem Members.idOf?_eq (ms : Members) (key : String) :
    ms.idOf? key = (entryOf? Prod.fst Prod.snd (fun s t => decide (s = t)) ms.entries key).map Prod.fst := by
  unfold Members.idOf? entryOf?
  cases hident : ms.entries.find? (·.1 = key) with
  | some e =>
    have hkey : e.1 = key := by simpa using List.find?_some hident
    have hget : ms.get? key = some e.2 :=
      (ms.get?_eq_some_iff key e.2).2 (hkey ▸ List.mem_of_find?_eq_some hident)
    simp [Table.contains, hget, hkey]
  | none =>
    have hget : ms.get? key = none := by
      refine Option.eq_none_iff_forall_ne_some.2 fun name hname => ?_
      have hne := List.find?_eq_none.1 hident _ ((ms.get?_eq_some_iff key name).1 hname)
      simp at hne
    simp [Table.contains, hget]

/-! ## Types -/

namespace PropertyKind

variable {k : PropertyKind} {t : PropertyTemplate} {ms : Members} {raw s : String} {v : Json}

/-- what the editor of a slot holds as it is opened: the slot as it is shown, and nothing when it is shown as empty -/
def untouched (k : PropertyKind) (slot : Option Json) (t : PropertyTemplate) (ms : Members) : String :=
  (k.display? slot t ms).getD ""

/-- the reading of an input depends on its trimmed text alone -/
theorem parse_congr {raw' : String} (hk : k ≠ multiSelect) (h : Text.trim raw = Text.trim raw') :
    k.parse raw t ms = k.parse raw' t ms := by
  cases k with
  | multiSelect => exact absurd rfl hk
  | _ => simp only [parse, h]

theorem nonBlank?_clean (hs : Text.Clean s) : nonBlank? (some (.string s)) = some s := by
  simp [nonBlank?, Json.string?, hs.2, hs.ne_empty]

/-- a value is shown as a text that is read as the same value -/
def ShownBack (k : PropertyKind) (t : PropertyTemplate) (ms : Members) (v : Json) : Prop :=
  ∃ s, k.display? (some v) t ms = some s ∧ k.parse s t ms = .ok v

/-- a type that stores the trimmed input as it is -/
def Verbatim : PropertyKind → Prop
  | text | number | email | url => True
  | _ => False

theorem parse_verbatim (hk : k.Verbatim) (hne : Text.trim raw ≠ "") (h : k.parse raw t ms = .ok v) :
    v = .string (Text.trim raw) := by
  cases k with
  | checkbox | select | multiSelect | person => exact hk.elim
  | text =>
    simp only [parse, hne, if_false] at h
    cases h
    rfl
  | number | email | url =>
    simp only [parse, hne, if_false] at h
    split at h
    · cases h
      rfl
    · cases h

theorem display?_verbatim (hk : k.Verbatim) (hs : Text.Clean s) : k.display? (some (.string s)) t ms = some s := by
  cases k with
  | checkbox | select | multiSelect | person => exact hk.elim
  | _ => exact nonBlank?_clean hs

theorem shownBack_verbatim (hk : k.Verbatim) (hne : Text.trim raw ≠ "") (h : k.parse raw t ms = .ok v) :
    k.ShownBack t ms v := by
  obtain rfl := parse_verbatim hk hne h
  have hclean : Text.Clean (Text.trim raw) := by
    refine ⟨?_, Text.trim_trim raw⟩
    rw [Text.isBlank_trim, ← Bool.not_eq_true]
    exact fun hblank => hne ((Text.trim_eq_empty_iff raw).2 hblank)
  refine ⟨Text.trim raw, display?_verbatim hk hclean, ?_⟩
  have hmulti : k ≠ multiSelect := by
    rintro rfl
    exact hk
  rw [parse_congr hmulti (Text.trim_trim raw), h]

theorem shownBack_checkbox (b : Bool) : checkbox.ShownBack t ms (.bool b) := by
  cases b with
  | false => exact ⟨"false", rfl, by rw [parse]; decide⟩
  | true => exact ⟨"true", rfl, by rw [parse]; decide⟩

theorem sameIgnoringCase_self (s : String) : PropertyTemplate.sameIgnoringCase s s = true := decide_eq_true rfl

/-- an option is stored by its identifier, shown by its label, and found again by it -/
theorem shownBack_select (ht : t.Unambiguous) {o : SelectOption} (ho : o ∈ t.options) :
    select.ShownBack t ms (.string o.id) := by
  have hlabel : Text.Clean o.label := ht.names o ho
  refine ⟨o.label, ?_, ?_⟩
  · rw [display?, nonBlank?_clean (ht.idents o ho), Option.map_some, optionLabel, t.option?_eq, entryOf?_ident ht ho]
    rfl
  · simp only [parse, hlabel.2, hlabel.ne_empty, if_false]
    rw [optionId, t.option?_eq, entryOf?_name sameIgnoringCase_self ht ho]
    rfl

/-- a person is stored by identifier, shown by name, and found again by it -/
theorem shownBack_person (hms : ms.Unambiguous) {e : String × String} (he : e ∈ ms.entries) :
    person.ShownBack t ms (.string e.1) := by
  have hname : Text.Clean e.2 := hms.names e he
  refine ⟨e.2, ?_, ?_⟩
  · rw [display?, nonBlank?_clean (hms.idents e he), Option.map_some, (ms.get?_eq_some_iff e.1 e.2).2 he]
    rfl
  · simp only [parse, hname.2, hname.ne_empty, if_false]
    rw [ms.idOf?_eq, entryOf?_name (fun _ => decide_eq_true rfl) hms he]
    rfl

/-- what a type stores for an input: cleared, or a value that is shown back -/
theorem parse_shown (hk : k ≠ multiSelect) (ht : t.Unambiguous) (hms : ms.Unambiguous) (h : k.parse raw t ms = .ok v) :
    (v = .null ∧ k ≠ checkbox) ∨ (v ≠ .null ∧ k.ShownBack t ms v) := by
  by_cases hbox : k = checkbox
  · subst hbox
    simp only [parse] at h
    split at h
    · cases h
      exact .inr ⟨Json.noConfusion, shownBack_checkbox _⟩
    · cases h
  by_cases hne : Text.trim raw = ""
  · have hnull : k.parse raw t ms = .ok .null := by
      cases k with
      | checkbox => exact absurd rfl hbox
      | multiSelect => exact absurd rfl hk
      | _ => simp only [parse, hne, if_true]
    rw [hnull] at h
    cases h
    exact .inl ⟨rfl, hbox⟩
  refine .inr ?_
  cases k with
  | checkbox => exact absurd rfl hbox
  | multiSelect => exact absurd rfl hk
  | text | number | email | url =>
    have hv := parse_verbatim (by trivial) hne h
    exact ⟨by rw [hv]; exact Json.noConfusion, shownBack_verbatim (by trivial) hne h⟩
  | select =>
    simp only [parse, hne, if_false] at h
    cases ho : optionId t (Text.trim raw) with
    | error e => rw [ho] at h; cases h
    | ok id =>
      rw [ho] at h
      cases h
      obtain ⟨o, hmem, rfl⟩ := optionId_mem ho
      exact ⟨Json.noConfusion, shownBack_select ht hmem⟩
  | person =>
    simp only [parse, hne, if_false, ms.idOf?_eq] at h
    cases he : entryOf? Prod.fst Prod.snd (fun s t => decide (s = t)) ms.entries (Text.trim raw) with
    | none => rw [he] at h; cases h
    | some e =>
      rw [he] at h
      cases h
      exact ⟨Json.noConfusion, shownBack_person hms (mem_of_entryOf? he)⟩

theorem display?_cleared (hbox : k ≠ checkbox) : k.display? (some .null) t ms = none ∧ k.display? none t ms = none := by
  cases k with
  | checkbox => exact absurd rfl hbox
  | _ => exact ⟨rfl, rfl⟩

/-- the untouched text of what was stored is read as what was stored -/
theorem parse_untouched (hk : k ≠ multiSelect) (ht : t.Unambiguous) (hms : ms.Unambiguous)
    (h : k.parse raw t ms = .ok v) :
    k.parse (k.untouched (RequestPhase.stored v) t ms) t ms = .ok v := by
  rcases parse_shown hk ht hms h with ⟨rfl, hbox⟩ | ⟨hnull, s, hshow, hparse⟩
  · have hblank : Text.trim "" = "" := by decide
    rw [RequestPhase.stored, if_pos rfl, untouched, (display?_cleared hbox).2]
    cases k with
    | checkbox => exact absurd rfl hbox
    | multiSelect => exact absurd rfl hk
    | _ => simp only [parse, Option.getD_none, hblank, if_true]
  · rw [RequestPhase.stored, if_neg hnull, untouched, hshow]
    exact hparse

end PropertyKind

/-! ## Requests -/

namespace Traffic

variable {w : AppWorld} {u : Traffic} {c : Card} {id text : String}

/-- a request alone that saves a slot as it is: the store stays as it is, and the answer is the card as it was -/
theorem serve_stages (hread : RequestPhase.readInput w u.app.board id text = .ok (c.property? id))
    (hc : u.app.store.card? c.id = some c) (ms : List Ambient) :
    (u.serve w (.setProperty c.id id text) ms).app.store = u.app.store ∧
      (4 ≤ ms.length → ∃ r, (u.serve w (.setProperty c.id id text) ms).requests[u.requests.length]? = some r ∧
        r.phase = .done (.card c)) := by
  obtain ⟨hstore, -, hphase⟩ := serve_input hread hc ms
  rw [c.writeProperty_self] at hphase
  refine ⟨?_, fun hlength => ⟨_, hphase hlength, rfl⟩⟩
  rw [hstore, RequestPhase.inputStore, c.writeProperty_self, Store.putCard_self hc, ite_self]

end Traffic

theorem RequestPhase.readInput_eq {w : AppWorld} {b : Board} {t : PropertyTemplate} {k : PropertyKind} {raw : String}
    {v : Json} (ht : b.template? t.id = some t) (hk : w.properties.kindOf t = .ok k)
    (h : k.parse raw t b.members = .ok v) : readInput w b t.id raw = .ok (stored v) := by
  simp only [readInput, ht, hk, Except.bind, h]

namespace PropertyKind

/-- **Saving what is shown.** What a type other than a multiple selection stores for an input is null and shown as
nothing, or it is shown as a text that is read as the same value. So the untouched text of the slot is read as what was
stored, and a request that saves it by itself changes no card and no block and answers with the card as it was. -/
theorem untouched_saves_same {k : PropertyKind} {t : PropertyTemplate} {ms : Members} {raw : String} {v : Json}
    (hk : k ≠ multiSelect) (ht : t.Unambiguous) (hms : ms.Unambiguous) (h : k.parse raw t ms = .ok v) :
    ((v = .null ∧ k.display? (some v) t ms = none) ∨
      ∃ s, k.display? (some v) t ms = some s ∧ k.parse s t ms = .ok v) ∧
    k.parse (k.untouched (RequestPhase.stored v) t ms) t ms = .ok v ∧
    ∀ (w : AppWorld) (u : Traffic) (c : Card) (steps : List Ambient), u.app.board.template? t.id = some t →
      u.app.board.members = ms → w.properties.kindOf t = .ok k → u.app.store.card? c.id = some c →
      c.property? t.id = RequestPhase.stored v →
      (u.serve w (.setProperty c.id t.id (k.untouched (c.property? t.id) t ms)) steps).app.store = u.app.store ∧
      (4 ≤ steps.length → ∃ r,
        (u.serve w (.setProperty c.id t.id (k.untouched (c.property? t.id) t ms)) steps).requests[u.requests.length]? =
          some r ∧ r.phase = .done (.card c)) := by
  have hagain := parse_untouched hk ht hms h
  refine ⟨?_, hagain, ?_⟩
  · rcases parse_shown hk ht hms h with ⟨rfl, hbox⟩ | ⟨-, hback⟩
    · exact .inl ⟨rfl, (display?_cleared hbox).1⟩
    · exact .inr hback
  · intro w u c steps htemplate hmembers hkind hcard hslot
    subst hmembers
    have hread := RequestPhase.readInput_eq htemplate hkind hagain
    rw [← hslot] at hread
    exact Traffic.serve_stages hread hcard steps

def owner : PropertyTemplate := ⟨"owner", "Owner", "person", []⟩

def crew : Members := .ofList [("u1", "alice"), ("u2", "bob")]

/-- the board of both, with a card whose owner was typed by name -/
def owned : Traffic := Traffic.new.run (.ofConfig .default)
  [.arrive (.putTemplate owner), .step 0 ⟨0, ⟨1⟩, .nil⟩, .arrive (.putMember "u1" "alice"), .step 1 ⟨0, ⟨2⟩, .nil⟩,
    .arrive (.putMember "u2" "bob"), .step 2 ⟨0, ⟨3⟩, .nil⟩, .arrive (.createCard none none), .step 3 ⟨0, ⟨4⟩, .nil⟩,
    .arrive (.setProperty ⟨4⟩ "owner" " bob "), .step 4 ⟨0, ⟨5⟩, .nil⟩, .step 4 ⟨0, ⟨6⟩, .nil⟩, .step 4 ⟨0, ⟨7⟩, .nil⟩,
    .step 4 ⟨0, ⟨8⟩, .nil⟩]

def ownedCard : Card := { Card.fresh ⟨4⟩ .nil "Untitled" with properties := .ofList [("owner", .string "u2")] }

theorem owner_saves_same : person ≠ multiSelect ∧ owner.Unambiguous ∧ crew.Unambiguous ∧
    person.parse " bob " owner crew = .ok (.string "u2") ∧ person.parse "bob" owner crew = .ok (.string "u2") ∧
    (owned.serve (.ofConfig .default) (.setProperty ⟨4⟩ "owner" "bob") (.replicate 4 ⟨1, ⟨9⟩, .nil⟩)).app.store =
      owned.app.store := by
  have ht : owner.Unambiguous := ⟨by decide, by decide, by decide, by decide, by decide⟩
  have hms : crew.Unambiguous := ⟨by decide, by decide, by decide, by decide, by decide⟩
  have hparse : person.parse " bob " owner crew = .ok (.string "u2") := by decide
  obtain ⟨-, hsave, hserve⟩ := untouched_saves_same (by decide) ht hms hparse
  have hkept := hserve (.ofConfig .default) owned ownedCard (.replicate 4 ⟨1, ⟨9⟩, .nil⟩) rfl rfl rfl rfl rfl
  exact ⟨by decide, ht, hms, hparse, hsave, hkept.1⟩

end PropertyKind

end Corkboard
