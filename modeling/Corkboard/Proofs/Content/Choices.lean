/-
Which trigger wins.

A text may open with the triggers of several types. The policy then decides: the type that was registered first, or the
one with the longest trigger, which is found in one pass that keeps a candidate. So is that type the right one also when
triggers are equal, nested or empty, and is nothing of the text lost when the trigger is cut off?

- `firstLongest_of_longest`: the pass finds the longest trigger, and of equally long ones the first;
- `beginning_of_fits`: of two triggers that open one text the shorter begins the longer;
- `trigger_choice`: the choice under either policy, and what the editor makes of it.
-/
import Corkboard.Proofs.Content.Triggers

namespace Corkboard

/-- the type has a trigger, and it is the beginning of the text and not empty -/
def Handler.Fits (h : Handler) (text : String) : Prop := ∃ t rest, h.trigger = some t ∧ t ≠ "" ∧ text = t ++ rest

namespace ContentRegistry

variable {r : ContentRegistry} {a h h' : Handler} {hs : List Handler} {text : String} {i j : Nat}

theorem opens_iff_fits : opens text h = true ↔ h.Fits text := by
  constructor
  · intro ho
    obtain ⟨t, ht, hne, htext⟩ := append_seedOf ho
    exact ⟨t, _, ht, hne, htext⟩
  · intro hf
    obtain ⟨t, rest, ht, hne, rfl⟩ := hf
    exact opens_iff.2 ⟨t, ht, hne, by simp⟩

/-- Of two triggers that open one text, the one that is no longer begins the other. -/
theorem beginning_of_fits (hf : h.Fits text) (hf' : h'.Fits text) (hle : triggerLength h' ≤ triggerLength h) :
    ∃ t t', h.trigger = some t ∧ h'.trigger = some t' ∧ t'.toList <+: t.toList := by
  obtain ⟨t, rest, ht, -, rfl⟩ := hf
  obtain ⟨t', rest', ht', -, htext⟩ := hf'
  have hlength : t'.toList.length ≤ t.toList.length := by
    simpa only [triggerLength, ht, ht', Option.map_some, Option.getD_some, String.length_toList] using hle
  have hpre : t.toList <+: (t ++ rest).toList := by simp
  have hpre' : t'.toList <+: (t ++ rest).toList := by simp [htext]
  exact ⟨t, t', ht, ht', List.prefix_of_prefix_length_le hpre' hpre hlength⟩

/-! ## The first and the longest -/

/-- of the types that fit the text, the one at the place comes first -/
structure First (hs : List Handler) (text : String) (i : Nat) (h : Handler) : Prop where
  place : hs[i]? = some h
  fits : h.Fits text
  earliest : ∀ (j : Nat) (h' : Handler), hs[j]? = some h' → h'.Fits text → i ≤ j

/-- of the types that fit the text, the one at the place has the longest trigger, and comes first of those whose trigger
is as long -/
structure FirstLongest (hs : List Handler) (text : String) (i : Nat) (h : Handler) : Prop where
  place : hs[i]? = some h
  fits : h.Fits text
  longest : ∀ (j : Nat) (h' : Handler), hs[j]? = some h' → h'.Fits text → triggerLength h' ≤ triggerLength h
  earliest : ∀ (j : Nat) (h' : Handler), hs[j]? = some h' → h'.Fits text → triggerLength h' = triggerLength h → i ≤ j

theorem First.unique (hf : First hs text i h) (hf' : First hs text j h') : h = h' := by
  have hij : i = j := Nat.le_antisymm (hf.earliest j h' hf'.place hf'.fits) (hf'.earliest i h hf.place hf.fits)
  subst hij
  exact Option.some.inj (hf.place.symm.trans hf'.place)

theorem FirstLongest.unique (hf : FirstLongest hs text i h) (hf' : FirstLongest hs text j h') : h = h' := by
  have hlength : triggerLength h = triggerLength h' :=
    Nat.le_antisymm (hf'.longest i h hf.place hf.fits) (hf.longest j h' hf'.place hf'.fits)
  have hij : i = j :=
    Nat.le_antisymm (hf.earliest j h' hf'.place hf'.fits hlength.symm) (hf'.earliest i h hf.place hf.fits hlength)
  subst hij
  exact Option.some.inj (hf.place.symm.trans hf'.place)

/-- a type in front that does not fit, or whose trigger is shorter, changes nothing -/
theorem FirstLongest.behind (hf : FirstLongest hs text i h) (ha : a.Fits text → triggerLength a < triggerLength h) :
    FirstLongest (a :: hs) text (i + 1) h := by
  refine ⟨hf.place, hf.fits, fun j h' hj hfits => ?_, fun j h' hj hfits hlength => ?_⟩
  · cases j with
    | zero =>
      cases hj
      exact Nat.le_of_lt (ha hfits)
    | succ j => exact hf.longest j h' hj hfits
  · cases j with
    | zero =>
      cases hj
      exact absurd (ha hfits) (by omega)
    | succ j => exact Nat.succ_le_succ (hf.earliest j h' hj hfits hlength)

/-- a type in front whose trigger is as long as any other wins -/
theorem firstLongest_front (ha : a.Fits text)
    (hlongest : ∀ h' ∈ hs, h'.Fits text → triggerLength h' ≤ triggerLength a) :
    FirstLongest (a :: hs) text 0 a := by
  refine ⟨rfl, ha, fun j h' hj hfits => ?_, fun j h' _ _ _ => Nat.zero_le j⟩
  cases j with
  | zero =>
    cases hj
    exact Nat.le_refl _
  | succ j => exact hlongest h' (List.mem_of_getElem? hj) hfits

/-- The pass over the types that fit ends with the first of those with the longest trigger. -/
theorem firstLongest_of_longest (hl : ContentRegistry.longest (hs.filter (opens text)) = some h) :
    ∃ i, FirstLongest hs text i h := by
  induction hs generalizing h with
  | nil => cases hl
  | cons a hs ih =>
    by_cases ha : opens text a
    case neg =>
      rw [List.filter_cons_of_neg ha] at hl
      obtain ⟨i, hi⟩ := ih hl
      exact ⟨i + 1, hi.behind fun hfits => absurd (opens_iff_fits.2 hfits) ha⟩
    case pos =>
      have hfits : a.Fits text := opens_iff_fits.1 ha
      rw [List.filter_cons_of_pos ha] at hl
      simp only [ContentRegistry.longest] at hl
      cases hb : ContentRegistry.longest (hs.filter (opens text)) with
      | none =>
        rw [hb] at hl
        cases hl
        have hnone : hs.filter (opens text) = [] := longest_eq_none_iff.1 hb
        refine ⟨0, firstLongest_front hfits fun h' hmem hfits' => ?_⟩
        exact absurd (opens_iff_fits.2 hfits') (List.filter_eq_nil_iff.1 hnone h' hmem)
      | some b =>
        simp only [hb] at hl
        obtain ⟨i, hi⟩ := ih hb
        split at hl
        case isTrue hlt =>
          cases hl
          exact ⟨i + 1, hi.behind fun _ => hlt⟩
        case isFalse hge =>
          cases hl
          refine ⟨0, firstLongest_front hfits fun h' hmem hfits' => ?_⟩
          obtain ⟨j, hj⟩ := List.mem_iff_getElem?.1 hmem
          exact Nat.le_trans (hi.longest j h' hj hfits') (Nat.le_of_not_lt hge)

theorem first_of_head (hh : (hs.filter (opens text)).head? = some h) : ∃ i, First hs text i h := by
  rw [List.head?_filter] at hh
  obtain ⟨hopens, i, hi, rfl, hbefore⟩ := List.find?_eq_some_iff_getElem.1 hh
  refine ⟨i, List.getElem?_eq_getElem hi, opens_iff_fits.1 hopens, fun j h' hj hfits => ?_⟩
  by_contra hlt
  have hlt : j < i := Nat.lt_of_not_le hlt
  obtain ⟨hj', rfl⟩ := List.getElem?_eq_some_iff.1 hj
  have hnot := hbefore j hlt
  rw [opens_iff_fits.2 hfits] at hnot
  cases hnot

/-! ## The choice -/

/-- the type at the place is the one that the policy prefers for the text -/
def Preferred (hs : List Handler) (text : String) (i : Nat) (h : Handler) : PrefixPolicy → Prop
  | .firstRegistered => First hs text i h
  | .longestMatch => FirstLongest hs text i h

theorem Preferred.fits {policy : PrefixPolicy} (hp : Preferred hs text i h policy) : hs[i]? = some h ∧ h.Fits text := by
  cases policy with
  | firstRegistered => exact ⟨First.place hp, First.fits hp⟩
  | longestMatch => exact ⟨FirstLongest.place hp, FirstLongest.fits hp⟩

theorem Preferred.unique {policy : PrefixPolicy} (hp : Preferred hs text i h policy)
    (hp' : Preferred hs text j h' policy) :
    h = h' := by
  cases policy with
  | firstRegistered => exact First.unique hp hp'
  | longestMatch => exact FirstLongest.unique hp hp'

theorem preferred_of_byTrigger? (hb : r.byTrigger? text = some h) : ∃ i, Preferred r.list text i h r.policy := by
  unfold byTrigger? at hb
  cases hpolicy : r.policy with
  | firstRegistered =>
    rw [hpolicy] at hb
    exact first_of_head hb
  | longestMatch =>
    rw [hpolicy] at hb
    exact firstLongest_of_longest hb

theorem byTrigger?_eq_some_iff : r.byTrigger? text = some h ↔ ∃ i, Preferred r.list text i h r.policy := by
  constructor
  · exact preferred_of_byTrigger?
  · intro hp
    obtain ⟨i, hp⟩ := hp
    cases hb : r.byTrigger? text with
    | none =>
      obtain ⟨hplace, hfits⟩ := hp.fits
      exact absurd (opens_iff_fits.2 hfits) (byTrigger?_eq_none_iff.1 hb h (List.mem_of_getElem? hplace))
    | some h' =>
      obtain ⟨j, hp'⟩ := preferred_of_byTrigger? hb
      rw [hp.unique hp']

/-- **Which trigger wins.** A text selects no type exactly when it opens with no trigger that is not empty. Otherwise it
selects the first registered type with such a trigger, or under the other policy the first of those with the longest
trigger; all other triggers that it opens with begin that one, so it does not matter in what a length is counted. An
editor at the root starts the draft of the type from what comes after the trigger: the two together are the text. -/
theorem trigger_choice (r : ContentRegistry) (text : String) :
    (r.byTrigger? text = none ↔ ∀ h ∈ r.list, ¬ h.Fits text) ∧
    (∀ h, r.byTrigger? text = some h ↔ ∃ i, Preferred r.list text i h r.policy) ∧
    (∀ h h', r.policy = .longestMatch → r.byTrigger? text = some h → h' ∈ r.list → h'.Fits text →
      ∃ t t', h.trigger = some t ∧ h'.trigger = some t' ∧ t'.toList <+: t.toList) ∧
    ∀ (id : Option Uuid) (before : String) (h : Handler), r.byTrigger? text = some h →
      ∃ t seed, h.trigger = some t ∧ t ≠ "" ∧ t ++ seed = text ∧
        Editor.input r ⟨id, .root before⟩ text = (⟨id, .typed h.tag (h.initialValue seed)⟩, .typeChanged h.tag) := by
  refine ⟨?_, fun h => byTrigger?_eq_some_iff, fun h h' hpolicy hb hmem hfits => ?_, fun id before h hb => ?_⟩
  · simp only [byTrigger?_eq_none_iff, opens_iff_fits]
  · obtain ⟨i, hp⟩ := preferred_of_byTrigger? hb
    rw [hpolicy] at hp
    obtain ⟨j, hj⟩ := List.mem_iff_getElem?.1 hmem
    exact beginning_of_fits (FirstLongest.fits hp) hfits (FirstLongest.longest hp j h' hj hfits)
  · obtain ⟨-, hopens⟩ := opens_of_byTrigger? hb
    obtain ⟨t, ht, hne, htext⟩ := append_seedOf hopens
    refine ⟨t, _, ht, hne, htext.symm, ?_⟩
    simp only [Editor.input, Editor.resolveRoot, hb, Editor.enterType]

/-- nested triggers, two that are equal, and one that is empty -/
def quotes (policy : PrefixPolicy) : ContentRegistry :=
  ⟨.ofList "content" [.verbatim "blank" none (some "") none false ⟨0, .ok .null⟩,
    .verbatim "quote" none (some "»") none false ⟨0, .ok .null⟩,
    .verbatim "deep" none (some "»»") none false ⟨0, .ok .null⟩,
    .verbatim "again" none (some "»»") none false ⟨0, .ok .null⟩], policy⟩

theorem nested_quotes_choice :
    (quotes .longestMatch).policy = .longestMatch ∧
    (∃ h h', (quotes .longestMatch).byTrigger? "»»é" = some h ∧ h.tag = "deep" ∧ h' ∈ (quotes .longestMatch).list ∧
      h'.tag = "quote" ∧ h'.Fits "»»é" ∧ ∃ t t', h.trigger = some t ∧ h'.trigger = some t' ∧ t'.toList <+: t.toList) ∧
    ∃ h, (quotes .firstRegistered).byTrigger? "»»é" = some h ∧ h.tag = "quote" ∧ ∃ t seed, h.trigger = some t ∧ t ≠ "" ∧
      t ++ seed = "»»é" ∧ Editor.input (quotes .firstRegistered) ⟨none, .root "»"⟩ "»»é" =
        (⟨none, .typed h.tag (h.initialValue seed)⟩, .typeChanged h.tag) := by
  have hdeep : (quotes .longestMatch).byTrigger? "»»é" =
      some (.verbatim "deep" none (some "»»") none false ⟨0, .ok .null⟩) := rfl
  have hquote : (quotes .firstRegistered).byTrigger? "»»é" =
      some (.verbatim "quote" none (some "»") none false ⟨0, .ok .null⟩) := rfl
  have hmem : Handler.verbatim "quote" none (some "»") none false ⟨0, .ok .null⟩ ∈ (quotes .longestMatch).list :=
    List.mem_cons_of_mem _ List.mem_cons_self
  have hfits : (Handler.verbatim "quote" none (some "»") none false ⟨0, .ok .null⟩).Fits "»»é" :=
    ⟨"»", "»é", rfl, by decide, by decide⟩
  obtain ⟨-, -, hbegin, -⟩ := trigger_choice (quotes .longestMatch) "»»é"
  obtain ⟨-, -, -, hinput⟩ := trigger_choice (quotes .firstRegistered) "»»é"
  exact ⟨rfl, ⟨_, _, hdeep, rfl, hmem, rfl, hfits, hbegin _ _ rfl hdeep hmem hfits⟩,
    ⟨_, hquote, rfl, hinput none "»" _ hquote⟩⟩

end ContentRegistry

end Corkboard
