/-
Finite maps held as key-sorted lists without repeated keys.

A table is its list of entries, so two tables with the same entries are equal and every listing of one comes out in key
order. `get?_insert`, `get?_erase` and `get?_alter` say what a write does to a look-up, and `ext_get?` says that the
look-ups determine the table.
-/
namespace Corkboard

/-- a finite map: its entries in strictly rising key order -/
structure Table (κ α : Type) [Ord κ] where
  entries : List (κ × α)
  rising : entries.Pairwise (fun a b => compare a.1 b.1 = .lt)

namespace Table

variable {κ α : Type} [Ord κ]

instance [DecidableEq κ] [DecidableEq α] : DecidableEq (Table κ α) := fun s t =>
  decidable_of_iff (s.entries = t.entries) (by cases s; cases t; simp)

/-! ## Entry lists -/

/-- the value under a key in an entry list -/
def lookup (k : κ) : List (κ × α) → Option α
  | [] => none
  | (k', a) :: rest => if compare k k' = .eq then some a else lookup k rest

/-- an entry put into a sorted list, in place of an entry with the same key -/
def put (k : κ) (a : α) : List (κ × α) → List (κ × α)
  | [] => [(k, a)]
  | (k', a') :: rest =>
    match compare k k' with
    | .lt => (k, a) :: (k', a') :: rest
    | .eq => (k, a) :: rest
    | .gt => (k', a') :: put k a rest

theorem mem_put {k : κ} {a : α} {e : κ × α} {es : List (κ × α)} (h : e ∈ put k a es) : e = (k, a) ∨ e ∈ es := by
  induction es with
  | nil => simpa [put] using h
  | cons d ds ih =>
    obtain ⟨k', a'⟩ := d
    unfold put at h
    split at h <;> grind

theorem rising_put [Std.TransOrd κ] (k : κ) (a : α) {es : List (κ × α)}
    (h : es.Pairwise (fun x y => compare x.1 y.1 = .lt)) :
    (put k a es).Pairwise (fun x y => compare x.1 y.1 = .lt) := by
  induction es with
  | nil => simp [put]
  | cons d ds ih =>
    obtain ⟨k', a'⟩ := d
    obtain ⟨hd, ht⟩ := List.pairwise_cons.1 h
    unfold put
    split
    case h_1 hc =>
      refine List.pairwise_cons.2 ⟨?_, h⟩
      intro e he
      rcases List.mem_cons.1 he with rfl | he
      · exact hc
      · exact Std.TransCmp.lt_trans hc (hd e he)
    case h_2 hc =>
      exact List.pairwise_cons.2 ⟨fun e he => Std.TransCmp.lt_of_eq_of_lt hc (hd e he), ht⟩
    case h_3 hc =>
      refine List.pairwise_cons.2 ⟨?_, ih ht⟩
      intro e he
      rcases mem_put he with rfl | he
      · exact Std.OrientedCmp.lt_of_gt hc
      · exact hd e he

/-! ## Operations -/

def empty : Table κ α := ⟨[], .nil⟩

instance : EmptyCollection (Table κ α) := ⟨empty⟩

instance : Inhabited (Table κ α) := ⟨empty⟩

def get? (t : Table κ α) (k : κ) : Option α := lookup k t.entries

def contains (t : Table κ α) (k : κ) : Bool := (t.get? k).isSome

/-- the table with one more value, or another value under a key it has -/
def insert [Std.TransOrd κ] (t : Table κ α) (k : κ) (a : α) : Table κ α := ⟨put k a t.entries, rising_put k a t.rising⟩

def erase (t : Table κ α) (k : κ) : Table κ α :=
  ⟨t.entries.filter (fun e => compare k e.1 ≠ .eq), t.rising.filter _⟩

/-- a value set when there is one, the key cleared when there is none -/
def alter [Std.TransOrd κ] (t : Table κ α) (k : κ) : Option α → Table κ α
  | some a => t.insert k a
  | none => t.erase k

/-- the table of a list of entries; of two entries with one key the later stands -/
def ofList [Std.TransOrd κ] (es : List (κ × α)) : Table κ α := es.foldl (fun t e => t.insert e.1 e.2) empty

/-- the keys, rising -/
def keys (t : Table κ α) : List κ := t.entries.map (·.1)

/-- the values, in key order -/
def values (t : Table κ α) : List α := t.entries.map (·.2)

def size (t : Table κ α) : Nat := t.entries.length

/-! ## Look-up laws -/

section Laws

@[simp] theorem get?_empty (k : κ) : (empty : Table κ α).get? k = none := rfl

variable [Std.LawfulEqOrd κ] [DecidableEq κ]

theorem lookup_put (k j : κ) (a : α) (es : List (κ × α)) :
    lookup j (put k a es) = if j = k then some a else lookup j es := by
  induction es with
  | nil => simp [put, lookup]
  | cons d ds ih =>
    obtain ⟨k', a'⟩ := d
    unfold put
    split
    case h_1 hc => simp [lookup]
    case h_2 hc =>
      obtain rfl := Std.LawfulEqCmp.eq_of_compare hc
      by_cases hj : j = k <;> simp [lookup, hj]
    case h_3 hc =>
      have hne : k ≠ k' := by rintro rfl; simp at hc
      by_cases hj : j = k' <;> by_cases hjk : j = k <;> simp_all [lookup]

theorem lookup_filter (k j : κ) (es : List (κ × α)) :
    lookup j (es.filter (fun e => compare k e.1 ≠ .eq)) = if j = k then none else lookup j es := by
  induction es with
  | nil => simp [lookup]
  | cons d ds ih =>
    obtain ⟨k', a'⟩ := d
    by_cases hk : k = k'
    · subst hk
      by_cases hj : j = k <;> simp_all [lookup]
    · by_cases hj : j = k' <;> by_cases hjk : j = k <;> simp_all [lookup]

theorem lookup_eq_some_iff {es : List (κ × α)} (h : es.Pairwise (fun x y => compare x.1 y.1 = .lt)) (k : κ) (a : α) :
    lookup k es = some a ↔ (k, a) ∈ es := by
  induction es with
  | nil => simp [lookup]
  | cons d ds ih =>
    obtain ⟨k', a'⟩ := d
    obtain ⟨hd, ht⟩ := List.pairwise_cons.1 h
    by_cases hk : k = k'
    · subst hk
      have : (k, a) ∉ ds := fun hm => by simpa using hd _ hm
      simp [lookup, this, eq_comm]
    · simp [lookup, hk, ih ht]

theorem get?_erase (t : Table κ α) (k j : κ) : (t.erase k).get? j = if j = k then none else t.get? j :=
  lookup_filter k j t.entries

/-- A value stands under a key exactly when the pair is an entry. -/
theorem get?_eq_some_iff (t : Table κ α) (k : κ) (a : α) : t.get? k = some a ↔ (k, a) ∈ t.entries :=
  lookup_eq_some_iff t.rising k a

theorem mem_values_iff (t : Table κ α) (a : α) : a ∈ t.values ↔ ∃ k, t.get? k = some a := by
  simp [values, get?_eq_some_iff]

theorem mem_keys_iff (t : Table κ α) (k : κ) : k ∈ t.keys ↔ t.contains k = true := by
  simp [keys, contains, Option.isSome_iff_exists, get?_eq_some_iff]

variable [Std.TransOrd κ]

/-- A write is seen under its key and nowhere else. -/
theorem get?_insert (t : Table κ α) (k j : κ) (a : α) : (t.insert k a).get? j = if j = k then some a else t.get? j :=
  lookup_put k j a t.entries

@[simp] theorem get?_insert_self (t : Table κ α) (k : κ) (a : α) : (t.insert k a).get? k = some a := by
  simp [get?_insert]

theorem get?_alter (t : Table κ α) (k j : κ) (v : Option α) : (t.alter k v).get? j = if j = k then v else t.get? j := by
  cases v with
  | none => exact get?_erase t k j
  | some a => exact get?_insert t k j a

/-- **Extensionality.** Tables that answer every look-up alike are equal. -/
theorem ext_get? {s t : Table κ α} (h : ∀ k, s.get? k = t.get? k) : s = t := by
  have hm : ∀ e, e ∈ s.entries ↔ e ∈ t.entries := fun e => by
    rw [← get?_eq_some_iff s e.1 e.2, ← get?_eq_some_iff t e.1 e.2, h]
  have hs : ∀ u : Table κ α, u.entries.Nodup := fun u =>
    u.rising.imp fun {a b} hab hne => by simp [hne] at hab
  have hp : s.entries.Perm t.entries := (List.perm_ext_iff_of_nodup (hs s) (hs t)).2 hm
  have he : s.entries = t.entries := by
    refine List.Perm.eq_of_pairwise ?_ s.rising t.rising hp
    intro a b _ _ hab hba
    have := Std.OrientedCmp.gt_of_lt hab
    simp [hba] at this
  cases s; cases t; simpa using he

/-- a value set or cleared, and put back -/
theorem alter_alter_get? (t : Table κ α) (k : κ) (v : Option α) : (t.alter k v).alter k (t.get? k) = t :=
  ext_get? fun j => by
    rw [get?_alter, get?_alter]
    split
    · rename_i hj; rw [hj]
    · rfl

end Laws

/-! ## Entries -/

section Entries

variable [Std.TransOrd κ]

/-- an entry put behind all entries of a list -/
theorem put_concat {k : κ} {a : α} {es : List (κ × α)} (h : ∀ e ∈ es, compare e.1 k = .lt) :
    put k a es = es ++ [(k, a)] := by
  induction es with
  | nil => rfl
  | cons e es ih =>
    have hgt : compare k e.1 = .gt := Std.OrientedCmp.gt_of_lt (h e List.mem_cons_self)
    simp only [put, hgt, List.cons_append]
    rw [ih fun x hx => h x (List.mem_cons_of_mem _ hx)]

/-- A table is the table of its entries. -/
theorem ofList_entries (t : Table κ α) : ofList t.entries = t := by
  have hall : ∀ (es : List (κ × α)) (u : Table κ α), (u.entries ++ es).Pairwise (fun a b => compare a.1 b.1 = .lt) →
      (es.foldl (fun t e => t.insert e.1 e.2) u).entries = u.entries ++ es := by
    intro es
    induction es with
    | nil => simp
    | cons e es ih =>
      intro u hu
      obtain ⟨-, -, hbefore⟩ := List.pairwise_append.1 hu
      have hput : (u.insert e.1 e.2).entries = u.entries ++ [e] :=
        put_concat fun x hx => hbefore x hx e List.mem_cons_self
      rw [List.foldl_cons, ih (u.insert e.1 e.2) (by simpa [hput] using hu), hput, List.append_assoc,
        List.singleton_append]
  have he : (ofList t.entries).entries = t.entries := hall t.entries empty t.rising
  cases h : ofList t.entries
  cases t
  simpa [h] using he

end Entries

end Table

end Corkboard
