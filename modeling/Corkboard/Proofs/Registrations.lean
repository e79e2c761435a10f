/-
What registrations leave behind.

A registry keeps two things for each description, an entry of its table and a place in its list of tags, and the listing
looks the tags up one by one and passes over what it does not find. Can the two come apart, however often a tag is
brought again, so that a type is missing from the menu or stands there twice?

- `paired_entries`: the listing passes over no tag, and shows in the place of each tag what is found under it;
- `get?_registerAll`, `entries_registerAll`: what a run of registrations adds to what is found and to what is listed;
- `first_registrations_kept`: the table, the tags, the listing and the number after any registrations, and what comes of
  one more;
- `ofList_entries`: every registry comes about so, by the registrations of what it lists.
-/
import Corkboard.Content.Handler
import Mathlib.Data.Finset.Card

namespace Corkboard.Registry

open Tagged (tag)

variable {α : Type} [Tagged α] {r : Registry α} {a : α} {as : List α}

/-! ## The listing -/

/-- In the place of each tag the listing shows what is found under it, which is a description of that tag. -/
theorem paired_entries (r : Registry α) :
    r.entries.map (fun a => (tag a, some a)) = r.tags.map fun t => (t, r.get? t) := by
  have hshown : ∀ t ∈ r.tags, (r.get? t).map (fun a => (tag a, some a)) = some (t, r.get? t) := by
    intro t ht
    obtain ⟨a, hget⟩ := mem_tags_iff.1 ht
    rw [hget, Option.map_some, tag_of_get? hget]
  rw [entries, List.map_filterMap, List.filterMap_congr hshown]
  exact congrFun List.filterMap_eq_map r.tags

theorem map_tag_entries (r : Registry α) : r.entries.map tag = r.tags := by
  have hfst := congrArg (List.map Prod.fst) r.paired_entries
  simpa only [List.map_map, Function.comp_def, List.map_id'] using hfst

theorem find?_entries (r : Registry α) (t : String) : r.entries.find? (tag · = t) = r.get? t := by
  cases hfind : r.entries.find? (tag · = t) with
  | some a =>
    have htag : tag a = t := by simpa using List.find?_some hfind
    rw [← htag, mem_entries_iff.1 (List.mem_of_find?_eq_some hfind)]
  | none =>
    cases hget : r.get? t with
    | none => rfl
    | some a =>
      obtain rfl := tag_of_get? hget
      exact absurd (by simp) (List.find?_eq_none.1 hfind a (mem_entries_iff.2 hget))

/-! ## One registration -/

theorem entries_add (hfree : ¬ r.contains (tag a) = true) : (r.add a hfree).entries = r.entries ++ [a] := by
  have hsame : ∀ t ∈ r.tags, (r.add a hfree).get? t = r.get? t := by
    intro t ht
    have hne : t ≠ tag a := by
      rintro rfl
      exact hfree (contains_iff.2 ht)
    rw [get?_add, if_neg hne]
  have hlast : (r.add a hfree).get? (tag a) = some a := by rw [get?_add, if_pos rfl]
  calc (r.add a hfree).entries
      = r.tags.filterMap (r.add a hfree).get? ++ [tag a].filterMap (r.add a hfree).get? := List.filterMap_append
    _ = r.entries ++ [a] := by
      rw [List.filterMap_congr hsame, List.filterMap_cons_some hlast, List.filterMap_nil, entries]

/-! ## A run of registrations

The inductions are on what is brought, from any registry, since every registration may leave another one. -/

theorem kind_registerAll (r : Registry α) (as : List α) : (r.registerAll as).kind = r.kind := by
  induction as generalizing r with
  | nil => rfl
  | cons a as ih =>
    refine (ih (r.offer a).1).trans ?_
    obtain ⟨-, ho⟩ | ⟨-, hfree, ho⟩ := r.offer_cases a
    · rw [ho]
    · rw [ho, add]

/-- What was found before is found after, and under any other tag the first description that came. -/
theorem get?_registerAll (r : Registry α) (as : List α) (t : String) :
    (r.registerAll as).get? t = (r.get? t).or (as.find? (tag · = t)) := by
  induction as generalizing r with
  | nil => simp [registerAll]
  | cons a as ih =>
    refine (ih (r.offer a).1).trans ?_
    obtain ⟨htaken, ho⟩ | ⟨hnew, hfree, ho⟩ := r.offer_cases a
    · obtain ⟨b, hb⟩ := mem_tags_iff.1 htaken
      by_cases ht : tag a = t
      · simp [ho, ← ht, hb]
      · simp [ho, ht]
    · have hnone : r.get? (tag a) = none :=
        Option.eq_none_iff_forall_ne_some.2 fun b hb => hnew (mem_tags_iff.2 ⟨b, hb⟩)
      by_cases ht : tag a = t
      · simp [ho, get?_add, ← ht, hnone]
      · simp [ho, get?_add, ht, Ne.symm ht]

/-- **What a run lists.** The old descriptions, and then of those that came under free tags the first of each tag. -/
theorem entries_registerAll (r : Registry α) (as : List α) :
    (r.registerAll as).entries = r.entries ++ (as.filter (tag · ∉ r.tags)).eraseDupsBy (fun a b => tag a = tag b) := by
  induction as generalizing r with
  | nil => simp [registerAll]
  | cons a as ih =>
    refine (ih (r.offer a).1).trans ?_
    obtain ⟨htaken, ho⟩ | ⟨hnew, hfree, ho⟩ := r.offer_cases a
    · rw [ho, List.filter_cons_of_neg (by simpa using htaken)]
    · -- of the later ones, those under the new tag are refused too
      have hlater : as.filter (tag · ∉ (r.add a hfree).tags) =
          (as.filter (tag · ∉ r.tags)).filter fun b => decide (tag b = tag a) = false := by
        rw [List.filter_filter]
        refine List.filter_congr fun b _ => ?_
        by_cases hb : tag b = tag a <;> simp [add, hb]
      rw [ho, entries_add, hlater, List.filter_cons_of_pos (by simpa using hnew), List.eraseDupsBy_cons,
        List.append_assoc, List.singleton_append]

/-! ## All registrations -/

section OfList

variable (kind : String) (calls : List α)

theorem kind_ofList : (ofList kind calls).kind = kind := kind_registerAll ..

theorem ofList_concat (a : α) : ofList kind (calls ++ [a]) = ((ofList kind calls).offer a).1 := List.foldl_concat ..

theorem get?_ofList (t : String) : (ofList kind calls).get? t = calls.find? (tag · = t) := get?_registerAll ..

theorem entries_ofList : (ofList kind calls).entries = calls.eraseDupsBy fun a b => tag a = tag b := by
  have hall : calls.filter (tag · ∉ (empty kind : Registry α).tags) = calls := by simp [empty]
  rw [ofList, entries_registerAll, hall]
  rfl

theorem mem_tags_ofList (t : String) : t ∈ (ofList kind calls).tags ↔ t ∈ calls.map tag := by
  rw [mem_tags_iff, ← Option.isSome_iff_exists, get?_ofList, List.find?_isSome]
  simp

theorem size_ofList : (ofList kind calls).size = (calls.map tag).toFinset.card := by
  have hset : (ofList kind calls).tags.toFinset = (calls.map tag).toFinset := by
    ext t
    rw [List.mem_toFinset, List.mem_toFinset, mem_tags_ofList]
  rw [← hset, List.toFinset_card_of_nodup (ofList kind calls).indexed.distinct, size]

/-- one more registration, and what comes of it -/
theorem offer_ofList (a : α) : (ofList kind calls).offer a =
    if tag a ∈ calls.map tag then (ofList kind calls, some (.duplicate kind (tag a)))
    else (ofList kind (calls ++ [a]), none) := by
  obtain ⟨htaken, ho⟩ | ⟨hnew, hfree, ho⟩ := (ofList kind calls).offer_cases a
  · rw [if_pos ((mem_tags_ofList ..).1 htaken), ho, kind_ofList]
  · rw [if_neg (mt (mem_tags_ofList ..).2 hnew), ofList_concat, ho]

/-- a registration that succeeds leads to the registry of one description more -/
theorem register_ofList_eq_ok_iff {a : α} {r' : Registry α} : (ofList kind calls).register a = .ok r' ↔
    tag a ∉ calls.map tag ∧ r' = ofList kind (calls ++ [a]) := by
  rw [register_eq_ok_iff, mem_tags_ofList, ofList_concat]

end OfList

/-- **First come, first kept.** After any registrations no tag stands twice among the tags, and they are the keys of the
table, which are the tags that were brought. The listing shows of the descriptions that were brought the first of each
tag, in the order in which these came; each stands in the place of its tag, is found under it and names it. There are as
many as there are different tags. One more registration is refused exactly when its tag was brought before, and then the
registry stays as it is; otherwise it succeeds, and its result is the registry of these registrations and the new
one. -/
theorem first_registrations_kept (kind : String) (calls : List α) :
    let r : Registry α := ofList kind calls
    r.tags.Nodup ∧ (∀ t, t ∈ r.tags ↔ t ∈ r.table.keys) ∧ (∀ t, t ∈ r.table.keys ↔ t ∈ calls.map tag) ∧
    r.entries = calls.eraseDupsBy (fun a b => tag a = tag b) ∧ (∀ t, r.get? t = calls.find? (tag · = t)) ∧
    r.entries.map (fun a => (tag a, some a)) = r.tags.map (fun t => (t, r.get? t)) ∧
    r.size = (calls.map tag).toFinset.card ∧
    ∀ a, (∀ e, r.register a = .error e ↔ tag a ∈ calls.map tag ∧ e = .duplicate kind (tag a)) ∧
      (∀ r', r.register a = .ok r' ↔ tag a ∉ calls.map tag ∧ r' = ofList kind (calls ++ [a])) ∧
      r.offer a =
        if tag a ∈ calls.map tag then (r, some (.duplicate kind (tag a))) else (ofList kind (calls ++ [a]), none) := by
  intro r
  have hkeys : ∀ t, t ∈ r.tags ↔ t ∈ r.table.keys := by
    intro t
    rw [Table.mem_keys_iff]
    exact r.indexed.keyed t
  have htags : ∀ t, t ∈ r.tags ↔ t ∈ calls.map tag := mem_tags_ofList kind calls
  have hrefused : ∀ a e, r.register a = .error e ↔ tag a ∈ calls.map tag ∧ e = .duplicate kind (tag a) := by
    intro a e
    rw [register_eq_error_iff, htags, kind_ofList]
  exact ⟨r.indexed.distinct, hkeys, fun t => (hkeys t).symm.trans (htags t), entries_ofList kind calls,
    get?_ofList kind calls, r.paired_entries, size_ofList kind calls,
    fun a => ⟨hrefused a, fun r' => register_ofList_eq_ok_iff kind calls, offer_ofList kind calls a⟩⟩

-- of two types with one tag the first is listed, in its place, and the number counts it once
example : let r : Registry Handler :=
      .ofList "content" [.recording "note", .divider, .verbatim "note" none none none false ⟨0, .ok .null⟩, .text]
    r.entries.map (·.icon) = ["plain", "divider", "text"] ∧ r.tags = ["note", "divider", "text"] ∧ r.size = 3 := by
  decide

/-! ## Every registry -/

/-- descriptions of different tags are all first ones -/
theorem eraseDupsBy_of_distinct (hd : (as.map tag).Nodup) : as.eraseDupsBy (fun a b => tag a = tag b) = as := by
  induction as with
  | nil => rfl
  | cons a as ih =>
    obtain ⟨ha, hd⟩ := List.nodup_cons.1 hd
    have hrest : as.filter (fun b => decide (tag b = tag a) = false) = as := by
      refine List.filter_eq_self.2 fun b hb => ?_
      have hne : tag b ≠ tag a := fun heq => ha (heq ▸ List.mem_map_of_mem hb)
      simpa using hne
    rw [List.eraseDupsBy_cons, hrest, ih hd]

/-- **Every registry comes about by registrations,** those of the descriptions that it lists. -/
theorem ofList_entries (r : Registry α) : ofList r.kind r.entries = r := by
  have hlisted : (ofList r.kind r.entries).entries = r.entries := by
    rw [entries_ofList, eraseDupsBy_of_distinct (r.map_tag_entries ▸ r.indexed.distinct)]
  ext1
  · exact kind_ofList ..
  · exact Table.ext_get? fun t => (get?_ofList ..).trans (r.find?_entries t)
  · rw [← map_tag_entries, hlisted, map_tag_entries]

end Corkboard.Registry
