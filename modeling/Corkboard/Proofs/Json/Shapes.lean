/-
Written forms read back.

A shape describes a value that is written out in full: texts, identifiers, whole numbers, lists and dictionaries of
plain values, and records with all their fields in order. The text of such a value is read back as that value, and so it
is where no field may be left out: nothing stands in for a missing field, because none is missing.

- `Describes.readsAs`: by induction on the description.
- `Describes.strict`: no field was left out.
-/
import Corkboard.Json.Shape
import Corkboard.Proofs.Json.Identifiers
import Corkboard.Proofs.Json.Values
import Mathlib.Data.List.Nodup

namespace Corkboard.Json

namespace Shape

/-! ## Descriptions -/

/-- the value is written out in full -/
inductive Describes : Shape → Json → Prop
  | any {v : Json} : Plain v → Describes .any v
  | text (s : String) : Describes .text (.string s)
  | uuid (u : Uuid) : Describes .uuid (.string u.render)
  | integer {n : Int} : -0x8000000000000000 ≤ n → n ≤ 0x7fffffffffffffff → Describes .integer (.int n)
  | list {s : Shape} {vs : List Json} : (∀ v ∈ vs, Describes s v) → Describes (.list s) (.array vs)
  | dictionary {ms : List (String × Json)} : Plain (.object ms) → Describes .dictionary (.object ms)
  | record {fields : List (String × Shape × Absence)} {ms : List (String × Json)} : (ms.map (·.1)).Nodup →
    fields.map (·.1) = ms.map (·.1) → (∀ p ∈ fields.zip ms, Describes p.1.2.1 p.2.2) →
      Describes (.record fields) (.object ms)

mutual

/-- the shape with all fields required -/
def strict : Shape → Shape
  | .optional s => .optional s.strict
  | .list s => .list s.strict
  | .record fields => .record (strictFields fields)
  | s => s

/-- the fields, all of them required -/
def strictFields : List (String × Shape × Absence) → List (String × Shape × Absence)
  | [] => []
  | (name, s, _) :: fs => (name, s.strict, .refused) :: strictFields fs

end

theorem strictFields_eq_map (fs : List (String × Shape × Absence)) :
    strictFields fs = fs.map fun f => (f.1, f.2.1.strict, .refused) := by
  induction fs with
  | nil => rfl
  | cons f fs ih => rw [strictFields, ih, List.map_cons]

/-- what is written out in full leaves no field out -/
theorem Describes.strict {s : Shape} {v : Json} (hd : s.Describes v) : s.strict.Describes v := by
  induction hd with
  | any hv => exact .any hv
  | text s => exact .text s
  | uuid u => exact .uuid u
  | integer hlow hhigh => exact .integer hlow hhigh
  | list _ ih => exact .list ih
  | dictionary hv => exact .dictionary hv
  | @record fields ms hnodup hnames _ ih =>
    rw [Shape.strict, strictFields_eq_map]
    refine .record hnodup (by rw [List.map_map]; exact hnames) fun p hp => ?_
    rw [List.zip_map_left] at hp
    obtain ⟨q, hq, rfl⟩ := List.mem_map.1 hp
    exact ih q hq

theorem Describes.ne_double {s : Shape} {v : Json} (hd : s.Describes v) : ∀ x, v ≠ .double x := by
  cases hd with
  | any hv => exact hv.ne_double
  | _ => rintro x hx; cases hx

/-! ## Records -/

theorem lookup_of_mem {ms : List (String × Json)} {m : String × Json} (hnodup : (ms.map (·.1)).Nodup) (hm : m ∈ ms) :
    ms.lookup m.1 = some m.2 := by
  induction ms with
  | nil => cases hm
  | cons u us ih =>
    obtain ⟨hu, hus⟩ := List.nodup_cons.1 hnodup
    rcases List.mem_cons.1 hm with rfl | hm
    · exact List.lookup_cons_self
    · have hne : m.1 ≠ u.1 := fun h => hu (List.mem_map.2 ⟨m, hm, h⟩)
      rw [List.lookup_cons, beq_eq_false_iff_ne.2 hne]
      exact ih hus hm

theorem complete_of_lookup {given : List (String × Json)} {fields : List (String × Shape × Absence)}
    {ms : List (String × Json)} (hnames : fields.map (·.1) = ms.map (·.1))
    (hms : ∀ m ∈ ms, given.lookup m.1 = some m.2) :
    complete given fields = some ms := by
  induction fields generalizing ms with
  | nil =>
    obtain rfl := List.map_eq_nil_iff.1 hnames.symm
    rfl
  | cons f fields ih =>
    obtain ⟨m, ms, rfl, hm, hrest⟩ := List.map_eq_cons_iff.1 hnames.symm
    have hgiven : given.lookup f.1 = some m.2 :=
      (congrArg (List.lookup · given) hm.symm).trans (hms m List.mem_cons_self)
    have hname : (f.1, m.2) = m := Prod.ext hm.symm rfl
    simp only [complete, hgiven, ih hrest.symm fun x hx => hms x (List.mem_cons_of_mem _ hx), Option.map_some, hname]

theorem readNamed_of_mem {fields : List (String × Shape × Absence)} {level : Nat} {name : String} {s : Shape}
    {a : Absence} {given : List (String × Json)} (hnodup : (fields.map (·.1)).Nodup) (hmem : (name, s, a) ∈ fields)
    (hgiven : given.lookup name = none) (cs : List Char) :
    readNamed fields level name given cs = (do
      let ((), cs) ← colon cs
      let (v, cs) ← read s level cs
      .ok ((name, v) :: given, cs)) := by
  induction fields with
  | nil => cases hmem
  | cons f fields ih =>
    obtain ⟨hf, hfields⟩ := List.nodup_cons.1 hnodup
    rcases List.mem_cons.1 hmem with rfl | hmem
    · simp [readNamed, hgiven]
    · have hne : f.1 ≠ name := fun h => hf (List.mem_map.2 ⟨_, hmem, h.symm⟩)
      rw [readNamed, if_neg hne]
      exact ih hfields hmem

/-- the members of a record, each the value of its field -/
theorem entersAll_readNamed {fields : List (String × Shape × Absence)} {ms : List (String × Json)} {level : Nat}
    (hnodup : (ms.map (·.1)).Nodup) (hnames : fields.map (·.1) = ms.map (·.1))
    (hread : ∀ p ∈ fields.zip ms, ReadsAs (p.1.2.1.read level) p.2.2) :
    EntersAll (readNamed fields level) List.reverse ms := by
  intro before m after hall rest hr
  obtain ⟨fieldsBefore, fieldsFrom, rfl, hbefore, hfrom⟩ :=
    List.map_eq_append_iff.1 (hnames.trans (hall ▸ List.map_append))
  obtain ⟨f, fieldsAfter, rfl, hname, -⟩ := List.map_eq_cons_iff.1 hfrom
  have hf : f.1 = m.1 := hname
  have hlength : fieldsBefore.length = before.length := by simpa using congrArg List.length hbefore
  have hpair : (f, m) ∈ (fieldsBefore ++ f :: fieldsAfter).zip ms := by
    rw [hall, List.zip_append hlength]
    simp
  have hgiven : before.reverse.lookup m.1 = none := by
    rw [hall, List.map_append, List.nodup_append] at hnodup
    obtain ⟨-, -, hapart⟩ := hnodup
    refine List.lookup_eq_none_iff.2 fun u hu => bne_iff_ne.2 fun h => ?_
    exact hapart u.1 (List.mem_map_of_mem (List.mem_reverse.1 hu)) m.1 List.mem_cons_self h.symm
  have hm := (hread _ hpair).reads rest hr
  have hfields : ((fieldsBefore ++ f :: fieldsAfter).map (·.1)).Nodup := hnames ▸ hnodup
  have hmem : (m.1, f.2.1, f.2.2) ∈ fieldsBefore ++ f :: fieldsAfter := by
    rw [← hf]
    simp
  rw [readNamed_of_mem hfields hmem hgiven]
  simp only [colon, skipSpace_cons (rfl : isSpace ':' = false), bind, Except.bind, hm, List.reverse_append]
  rfl

/-! ## Reading -/

theorem readText_chars (s : String) (rest : List Char) : readText ((Json.string s).chars ++ rest) = .ok (s, rest) := by
  simp [readText, chars, stringChars, skipSpace_cons (rfl : isSpace '"' = false), stringBody_chars]

theorem readInt_chars {n least greatest : Int} (hlow : least ≤ n) (hhigh : n ≤ greatest)
    (hleast : -0x8000000000000000 ≤ n) (hgreatest : n < 0x10000000000000000) {rest : List Char} (hr : Closes rest) :
    readInt least greatest ((Json.int n).chars ++ rest) = .ok (.int n, rest) := by
  rw [chars]
  by_cases hneg : n < 0
  · obtain ⟨cs, hcs, hnumber⟩ := number_of_neg hneg hleast
    rw [hcs, List.cons_append, readInt, skipSpace_cons rfl]
    simp only [hnumber rest hr, Except.bind, if_pos (And.intro hlow hhigh)]
  · obtain ⟨c, cs, hcs, hdigit, hnumber⟩ := number_of_nonneg (Int.not_lt.1 hneg) hgreatest
    have hne : c ≠ '-' := ne_of_isDigit hdigit rfl
    rw [hcs, List.cons_append, readInt, skipSpace_cons (isSpace_of_isDigit hdigit)]
    split
    · rename_i h
      exact absurd (List.cons.inj h).1 hne
    · rename_i h
      obtain ⟨rfl, rfl⟩ := List.cons.inj h
      simp only [if_pos hdigit, hnumber rest hr, Except.bind, if_pos (And.intro hlow hhigh)]
    · rename_i h
      cases h

/-- an object is read as a dictionary as it is read as a value -/
theorem read_dictionary (level : Nat) (cs : List Char) :
    read .dictionary level ('\x7b' :: cs) = value level ('\x7b' :: cs) := by
  have hskip : skipSpace ('\x7b' :: cs) = '\x7b' :: cs := skipSpace_cons rfl cs
  cases level <;> simp only [read, value, hskip]

theorem exists_chars_object (ms : List (String × Json)) : ∃ cs, (object ms).chars = '\x7b' :: cs := by
  cases ms <;> exact ⟨_, rfl⟩

/-- **What a shape describes reads back**, at every level that its nesting fits in. -/
theorem Describes.readsAs {s : Shape} {v : Json} (hd : s.Describes v) {level : Nat} (hl : v.depth ≤ level) :
    ReadsAs (s.read level) v := by
  induction hd generalizing level with
  | any hv =>
    refine ⟨opens_chars (Describes.any hv).ne_double, fun rest hr => ?_⟩
    rw [read]
    exact (hv.readsAs hl).reads rest hr
  | text s =>
    refine ⟨opens_chars nofun, fun rest _ => ?_⟩
    rw [read, readText_chars, Except.map]
  | uuid u =>
    refine ⟨opens_chars nofun, fun rest _ => ?_⟩
    simp only [read, readText_chars, Uuid.parse?_render, orMisfit, bind, Except.bind]
  | integer hlow hhigh =>
    refine ⟨opens_chars nofun, fun rest hr => ?_⟩
    rw [read]
    exact readInt_chars hlow hhigh hlow (by omega) hr
  | @list s vs _ ih =>
    refine ⟨opens_chars nofun, fun rest _ => ?_⟩
    obtain ⟨below, rfl, hbelow⟩ := array_fits hl
    have hread : ∀ v ∈ vs, ReadsAs (s.read below) v := fun v hv => ih v hv (hbelow v hv)
    obtain ⟨tail, htail, hitems⟩ := items_chars hread
    have hskip : skipSpace ('[' :: (tail ++ rest)) = '[' :: (tail ++ rest) := skipSpace_cons rfl _
    rw [htail, List.cons_append]
    simp only [read, hskip, hitems, Except.map]
  | @dictionary ms hv =>
    refine ⟨opens_chars nofun, fun rest hr => ?_⟩
    have hvalue := (hv.readsAs hl).reads rest hr
    obtain ⟨cs, hcs⟩ := exists_chars_object ms
    rw [hcs, List.cons_append] at hvalue ⊢
    rw [read_dictionary]
    exact hvalue
  | @record fields ms hnodup hnames _ ih =>
    refine ⟨opens_chars nofun, fun rest _ => ?_⟩
    obtain ⟨below, rfl, hbelow⟩ := object_fits hl
    have hread : ∀ p ∈ fields.zip ms, ReadsAs (p.1.2.1.read below) p.2.2 := fun p hp =>
      ih p hp (hbelow p.2 (List.of_mem_zip hp).2)
    obtain ⟨tail, htail, hmembers⟩ := members_chars (entersAll_readNamed hnodup hnames hread)
    have hcomplete : complete ms.reverse fields = some ms := by
      refine complete_of_lookup hnames fun m hm => lookup_of_mem ?_ (List.mem_reverse.2 hm)
      rw [List.map_reverse]
      exact List.nodup_reverse.2 hnodup
    have hskip : skipSpace ('\x7b' :: (tail ++ rest)) = '\x7b' :: (tail ++ rest) := skipSpace_cons rfl _
    simp only [List.reverse_nil] at hmembers
    rw [htail, List.cons_append]
    simp only [read, hskip, hmembers, hcomplete, orMisfit, bind, Except.bind]

theorem decode_render {s : Shape} {v : Json} (hd : s.Describes v) (hl : v.depth ≤ levels) :
    s.decode v.render = .ok v := by
  have hread := (hd.readsAs hl).reads [] (by simp [Closes])
  rw [List.append_nil] at hread
  rw [Shape.decode, render, String.toList_ofList, hread]
  rfl

end Shape

end Corkboard.Json
