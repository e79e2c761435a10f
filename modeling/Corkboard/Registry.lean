/-
Registries of described types.

A registry only grows. It keeps the descriptions in a table under their tags, and the tags beside it in the order in
which they came; the first description to take a tag keeps it. `offer_cases` and `get?_add` say when a registration
succeeds and what it changes, `mem_entries_iff` that the listing shows what is found.
-/
import Corkboard.Table

namespace Corkboard

/-- a description that names the type it describes -/
class Tagged (α : Type) where
  tag : α → String

open Tagged (tag)

/-- why a registration is refused -/
inductive RegistryError where
  | duplicate (kind tag : String)
  deriving DecidableEq

def RegistryError.message : RegistryError → String
  | .duplicate kind tag => kind ++ " type already registered: " ++ tag

/-- a list of tags in step with a table of descriptions -/
structure Registry.Indexed {α : Type} [Tagged α] (table : Table String α) (tags : List String) : Prop where
  distinct : tags.Nodup
  keyed : ∀ t, t ∈ tags ↔ table.contains t = true
  own : ∀ t a, table.get? t = some a → tag a = t

/-- descriptions under their tags, and the tags in order of registration; `kind` says what kind of type is described -/
@[ext]
structure Registry (α : Type) [Tagged α] where
  kind : String
  table : Table String α
  tags : List String
  indexed : Registry.Indexed table tags

namespace Registry

variable {α : Type} [Tagged α]

theorem Indexed.empty : Indexed (α := α) .empty [] :=
  ⟨.nil, fun _ => by simp [Table.contains], fun _ _ h => by simp at h⟩

/-- A description under a new tag keeps table and tags in step. -/
theorem Indexed.insert {table : Table String α} {tags : List String} {a : α} (hi : Indexed table tags)
    (hfree : ¬ table.contains (tag a) = true) : Indexed (table.insert (tag a) a) (tags ++ [tag a]) where
  distinct := by
    have hnew : tag a ∉ tags := fun hm => hfree ((hi.keyed _).1 hm)
    refine List.nodup_append.2 ⟨hi.distinct, by simp, fun t ht t' ht' => ?_⟩
    rw [List.mem_singleton.1 ht']
    exact ne_of_mem_of_not_mem ht hnew
  keyed t := by
    rw [List.mem_append, List.mem_singleton, hi.keyed, Table.contains, Table.contains, Table.get?_insert]
    by_cases ht : t = tag a <;> simp [ht]
  own t b hb := by
    rw [Table.get?_insert] at hb
    split at hb
    case isTrue ht =>
      cases hb
      exact ht.symm
    case isFalse => exact hi.own t b hb

def empty (kind : String) : Registry α := ⟨kind, .empty, [], .empty⟩

def get? (r : Registry α) (t : String) : Option α := r.table.get? t

def contains (r : Registry α) (t : String) : Bool := r.table.contains t

/-- the descriptions, in order of registration -/
def entries (r : Registry α) : List α := r.tags.filterMap r.get?

def size (r : Registry α) : Nat := r.tags.length

/-- the registry with a description under a free tag -/
def add (r : Registry α) (a : α) (hfree : ¬ r.contains (tag a) = true) : Registry α :=
  ⟨r.kind, r.table.insert (tag a) a, r.tags ++ [tag a], r.indexed.insert hfree⟩

/-- the registry after a description is brought to it, and why it was refused, if it was -/
def offer (r : Registry α) (a : α) : Registry α × Option RegistryError :=
  if h : r.contains (tag a) then (r, some (.duplicate r.kind (tag a))) else (r.add a h, none)

/-- the registry with one more description, unless its tag is taken -/
def register (r : Registry α) (a : α) : Except RegistryError (Registry α) :=
  match r.offer a with
  | (r', none) => .ok r'
  | (_, some e) => .error e

/-- the registry after a list of registrations, the refused ones left out -/
def registerAll (r : Registry α) (as : List α) : Registry α := as.foldl (fun r a => (r.offer a).1) r

/-- the registry of a list of descriptions -/
def ofList (kind : String) (as : List α) : Registry α := (empty kind).registerAll as

/-! ## Laws -/

section Laws

variable {r r' : Registry α} {a : α} {t : String}

theorem contains_iff : r.contains t = true ↔ t ∈ r.tags := (r.indexed.keyed t).symm

theorem tag_of_get? (h : r.get? t = some a) : tag a = t := r.indexed.own t a h

theorem mem_tags_iff : t ∈ r.tags ↔ ∃ a, r.get? t = some a := by
  rw [r.indexed.keyed, Table.contains, Option.isSome_iff_exists, get?]

/-- A description is listed exactly when it is found under its tag. -/
theorem mem_entries_iff : a ∈ r.entries ↔ r.get? (tag a) = some a := by
  rw [entries, List.mem_filterMap]
  constructor
  · intro h
    obtain ⟨t, -, hget⟩ := h
    rwa [tag_of_get? hget]
  · intro hget
    exact ⟨tag a, mem_tags_iff.2 ⟨a, hget⟩, hget⟩

theorem get?_add (hfree : ¬ r.contains (tag a) = true) :
    (r.add a hfree).get? t = if t = tag a then some a else r.get? t := Table.get?_insert ..

/-- **All that one registration can do.** A taken tag is refused and nothing changes; under a free one the description
is added. -/
theorem offer_cases (r : Registry α) (a : α) :
    (tag a ∈ r.tags ∧ r.offer a = (r, some (.duplicate r.kind (tag a)))) ∨
    (tag a ∉ r.tags ∧ ∃ hfree, r.offer a = (r.add a hfree, none)) := by
  by_cases h : r.contains (tag a) = true
  · exact .inl ⟨contains_iff.1 h, dif_pos h⟩
  · exact .inr ⟨fun ht => h (contains_iff.2 ht), h, dif_neg h⟩

/-- A registration succeeds exactly when its tag is free, and its result is the registry that the offer leaves. -/
theorem register_eq_ok_iff : r.register a = .ok r' ↔ tag a ∉ r.tags ∧ r' = (r.offer a).1 := by
  unfold register offer
  rw [← contains_iff]
  by_cases h : r.contains (tag a) = true <;> simp [h, eq_comm]

/-- A registration is refused exactly when its tag is taken. -/
theorem register_eq_error_iff {e : RegistryError} :
    r.register a = .error e ↔ tag a ∈ r.tags ∧ e = .duplicate r.kind (tag a) := by
  unfold register offer
  rw [← contains_iff]
  by_cases h : r.contains (tag a) = true <;> simp [h, eq_comm]

end Laws

end Registry

end Corkboard
