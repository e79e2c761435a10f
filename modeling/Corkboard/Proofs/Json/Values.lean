/-
Values read back.

A plain value holds no doubles, no whole numbers beyond 64 bits, and objects with rising names, as values have that were
read. What is written for a plain value is read as that value at every level that its nesting fits in.

- `itemsFrom_chars`, `membersFrom_chars`: arrays and objects, for any reader of their parts.
- `Plain.readsAs`: plain values, by induction on what makes them plain.
-/
import Corkboard.Proofs.Json.Tokens

namespace Corkboard.Json

/-! ## Nesting and plain values -/

mutual

/-- how many brackets a value opens inside each other -/
def depth : Json → Nat
  | .array vs => depthItems vs + 1
  | .object ms => depthMembers ms + 1
  | _ => 0

def depthItems : List Json → Nat
  | [] => 0
  | v :: vs => max v.depth (depthItems vs)

def depthMembers : List (String × Json) → Nat
  | [] => 0
  | (_, v) :: ms => max v.depth (depthMembers ms)

end

/-- a value without doubles, with whole numbers of 64 bits, and with rising names -/
inductive Plain : Json → Prop
  | null : Plain .null
  | bool (b : Bool) : Plain (.bool b)
  | int {n : Int} : -0x8000000000000000 ≤ n → n < 0x10000000000000000 → Plain (.int n)
  | string (s : String) : Plain (.string s)
  | array {vs : List Json} : (∀ v ∈ vs, Plain v) → Plain (.array vs)
  | object {ms : List (String × Json)} : ms.Pairwise (fun a b => compare a.1 b.1 = .lt) → (∀ m ∈ ms, Plain m.2) →
    Plain (.object ms)

theorem Plain.ne_double {v : Json} (hv : Plain v) : ∀ x, v ≠ .double x := by
  rintro x rfl
  cases hv

theorem depthItems_le_iff {vs : List Json} {n : Nat} : depthItems vs ≤ n ↔ ∀ v ∈ vs, v.depth ≤ n := by
  induction vs with
  | nil => simp [depthItems]
  | cons v vs ih => rw [depthItems, Nat.max_le, ih, List.forall_mem_cons]

theorem depthMembers_le_iff {ms : List (String × Json)} {n : Nat} : depthMembers ms ≤ n ↔ ∀ m ∈ ms, m.2.depth ≤ n := by
  induction ms with
  | nil => simp [depthMembers]
  | cons m ms ih => rw [depthMembers, Nat.max_le, ih, List.forall_mem_cons]

theorem array_fits {vs : List Json} {level : Nat} (hl : (array vs).depth ≤ level) :
    ∃ below, level = below + 1 ∧ ∀ v ∈ vs, v.depth ≤ below := by
  rw [depth] at hl
  obtain ⟨below, rfl⟩ := Nat.exists_eq_add_of_le' (Nat.le_trans (Nat.le_add_left 1 _) hl)
  exact ⟨below, rfl, depthItems_le_iff.1 (Nat.le_of_add_le_add_right hl)⟩

theorem object_fits {ms : List (String × Json)} {level : Nat} (hl : (object ms).depth ≤ level) :
    ∃ below, level = below + 1 ∧ ∀ m ∈ ms, m.2.depth ≤ below := by
  rw [depth] at hl
  obtain ⟨below, rfl⟩ := Nat.exists_eq_add_of_le' (Nat.le_trans (Nat.le_add_left 1 _) hl)
  exact ⟨below, rfl, depthMembers_le_iff.1 (Nat.le_of_add_le_add_right hl)⟩

/-! ## Texts of values -/

/-- a text that begins with a token, and not with a closing bracket -/
def Opens (cs : List Char) : Prop := ∃ c ∈ cs.head?, isSpace c = false ∧ c ≠ ']'

/-- the text of a value is read as that value, wherever it closes -/
structure ReadsAs (read : Reader Json) (v : Json) : Prop where
  opens : Opens v.chars
  reads : ∀ rest, Closes rest → read (v.chars ++ rest) = .ok (v, rest)

theorem skipSpace_cons {c : Char} (hc : isSpace c = false) (cs : List Char) : skipSpace (c :: cs) = c :: cs := by
  simp [skipSpace, hc]

theorem Opens.skipSpace {cs : List Char} (ho : Opens cs) (rest : List Char) : skipSpace (cs ++ rest) = cs ++ rest := by
  obtain ⟨c, hc, hspace, -⟩ := ho
  obtain ⟨cs, rfl⟩ := List.head?_eq_some_iff.1 hc
  exact skipSpace_cons hspace _

theorem opens_chars {v : Json} (hv : ∀ x, v ≠ .double x) : Opens v.chars := by
  cases v with
  | null => exact ⟨'n', rfl, rfl, by decide⟩
  | bool b => cases b <;> exact ⟨_, rfl, rfl, by decide⟩
  | int n =>
    rw [chars, intChars]
    split
    · exact ⟨'-', rfl, rfl, by decide⟩
    · obtain ⟨c, cs, hcs⟩ := List.exists_cons_of_ne_nil (natChars_ne_nil n.natAbs)
      have hdigit : Double.isDigit c = true := isDigit_of_mem_natChars (hcs ▸ List.mem_cons_self)
      exact ⟨c, hcs ▸ rfl, isSpace_of_isDigit hdigit, ne_of_isDigit hdigit rfl⟩
  | double x => exact absurd rfl (hv x)
  | string s => exact ⟨'"', rfl, rfl, by decide⟩
  | array vs => cases vs <;> exact ⟨'[', rfl, rfl, by decide⟩
  | object ms => cases ms <;> exact ⟨'\x7b', rfl, rfl, by decide⟩

/-! ## Arrays -/

theorem closes_moreItems (vs : List Json) (rest : List Char) : Closes (moreItems vs ++ rest) := by
  rintro c hc
  cases vs with
  | nil =>
    cases hc
    exact .inr (.inl rfl)
  | cons v vs =>
    cases hc
    exact .inl rfl

/-- items one by one: by induction on those after the first -/
theorem itemsFrom_chars {read : Reader Json} {v : Json} {vs : List Json} {fuel : Nat}
    (hread : ∀ u ∈ v :: vs, ReadsAs read u) (hfuel : vs.length < fuel) (rest : List Char) :
    itemsFrom read fuel (v.chars ++ (moreItems vs ++ rest)) = .ok (v :: vs, rest) := by
  induction vs generalizing v fuel with
  | nil =>
    obtain ⟨fuel, rfl⟩ := Nat.exists_eq_succ_of_ne_zero (Nat.ne_of_gt hfuel)
    have hv := (hread v List.mem_cons_self).reads _ (closes_moreItems [] rest)
    simp only [itemsFrom, hv, bind, Except.bind]
    rw [moreItems, List.cons_append, skipSpace_cons rfl]
    rfl
  | cons u vs ih =>
    obtain ⟨fuel, rfl⟩ := Nat.exists_eq_succ_of_ne_zero (Nat.ne_of_gt (Nat.lt_of_le_of_lt (Nat.zero_le _) hfuel))
    have hv := (hread v List.mem_cons_self).reads _ (closes_moreItems (u :: vs) rest)
    have hmore : itemsFrom read fuel (u.chars ++ (moreItems vs ++ rest)) = .ok (u :: vs, rest) :=
      ih (fun x hx => hread x (List.mem_cons_of_mem _ hx)) (by simpa using hfuel)
    have hopens := (hread u (by simp)).opens
    simp only [itemsFrom, hv, bind, Except.bind]
    rw [moreItems, List.cons_append, skipSpace_cons rfl]
    simp only [List.append_assoc, hopens.skipSpace, hmore]

theorem length_lt_moreItems (vs : List Json) : vs.length < (moreItems vs).length := by
  induction vs with
  | nil => simp [moreItems]
  | cons v vs ih =>
    simp only [moreItems, List.length_cons, List.length_append]
    omega

theorem items_chars {read : Reader Json} {vs : List Json} (hread : ∀ v ∈ vs, ReadsAs read v) :
    ∃ tail, (array vs).chars = '[' :: tail ∧ ∀ rest, items read (tail ++ rest) = .ok (vs, rest) := by
  cases vs with
  | nil => exact ⟨[']'], rfl, fun rest => rfl⟩
  | cons v vs =>
    refine ⟨v.chars ++ moreItems vs, rfl, fun rest => ?_⟩
    have hopens := (hread v List.mem_cons_self).opens
    unfold items
    rw [List.append_assoc, hopens.skipSpace]
    split
    · rename_i tail htail
      obtain ⟨c, hc, -, hne⟩ := hopens
      obtain ⟨cs, hcs⟩ := List.head?_eq_some_iff.1 hc
      rw [hcs] at htail
      exact absurd (List.cons.inj htail).1 hne
    · refine itemsFrom_chars hread ?_ rest
      have hlength := length_lt_moreItems vs
      simp only [List.length_append]
      omega

/-! ## Objects -/

theorem closes_moreMembers (ms : List (String × Json)) (rest : List Char) : Closes (moreMembers ms ++ rest) := by
  rintro c hc
  cases ms with
  | nil =>
    cases hc
    exact .inr (.inr rfl)
  | cons m ms =>
    cases hc
    exact .inl rfl

theorem length_lt_moreMembers (ms : List (String × Json)) : ms.length < (moreMembers ms).length := by
  induction ms with
  | nil => simp [moreMembers]
  | cons m ms ih =>
    simp only [moreMembers, List.length_cons, List.length_append]
    omega

section Members

variable {σ : Type} {entry : String → σ → Reader σ} {state : List (String × Json) → σ} {all : List (String × Json)}

/-- each member of an object, read after those before it, leads to the state of one member more -/
def EntersAll (entry : String → σ → Reader σ) (state : List (String × Json) → σ) (all : List (String × Json)) : Prop :=
  ∀ before m after, all = before ++ m :: after → ∀ rest, Closes rest →
    entry m.1 (state before) (':' :: (m.2.chars ++ rest)) = .ok (state (before ++ [m]), rest)

/-- members one by one: by induction on those after the first -/
theorem membersFrom_chars (hentry : EntersAll entry state all) {before after : List (String × Json)} {m : String × Json}
    {fuel : Nat} (hall : all = before ++ m :: after) (hfuel : after.length < fuel) (rest : List Char) :
    membersFrom stringBody entry fuel (state before)
      (stringChars m.1 ++ ':' :: (m.2.chars ++ (moreMembers after ++ rest))) = .ok (state all, rest) := by
  have hname : ∀ (k : String) (cs : List Char), stringChars k ++ cs = '"' :: (k.toList.flatMap escape ++ '"' :: cs) :=
    fun k cs => by simp [stringChars]
  induction after generalizing before m fuel with
  | nil =>
    obtain ⟨fuel, rfl⟩ := Nat.exists_eq_succ_of_ne_zero (Nat.ne_of_gt hfuel)
    have hm := hentry before m [] hall _ (closes_moreMembers [] rest)
    rw [hname]
    simp only [membersFrom, stringBody_chars, hm, bind, Except.bind]
    rw [moreMembers, List.cons_append, skipSpace_cons rfl, ← hall]
    rfl
  | cons u after ih =>
    obtain ⟨fuel, rfl⟩ := Nat.exists_eq_succ_of_ne_zero (Nat.ne_of_gt (Nat.lt_of_le_of_lt (Nat.zero_le _) hfuel))
    have hm := hentry before m (u :: after) hall _ (closes_moreMembers (u :: after) rest)
    have hmore : membersFrom stringBody entry fuel (state (before ++ [m]))
        (stringChars u.1 ++ ':' :: (u.2.chars ++ (moreMembers after ++ rest))) = .ok (state all, rest) :=
      ih (by simp [hall]) (by simpa using hfuel)
    have hskip : ∀ cs, skipSpace (stringChars u.1 ++ cs) = stringChars u.1 ++ cs := fun cs => skipSpace_cons rfl _
    rw [hname]
    simp only [membersFrom, stringBody_chars, hm, bind, Except.bind]
    rw [moreMembers, List.cons_append, skipSpace_cons rfl]
    simp only [List.append_assoc, List.cons_append, hskip, hmore]

theorem members_chars (hentry : EntersAll entry state all) :
    ∃ tail, (object all).chars = '\x7b' :: tail ∧
      ∀ rest, members stringBody entry (state []) (tail ++ rest) = .ok (state all, rest) := by
  cases all with
  | nil => exact ⟨['\x7d'], rfl, fun rest => rfl⟩
  | cons m ms =>
    refine ⟨stringChars m.1 ++ ':' :: (m.2.chars ++ moreMembers ms), rfl, fun rest => ?_⟩
    have hskip : ∀ cs, skipSpace (stringChars m.1 ++ cs) = stringChars m.1 ++ cs := fun cs => skipSpace_cons rfl _
    simp only [List.append_assoc, List.cons_append, members, hskip]
    split
    · rename_i tail htail
      exact absurd (List.cons.inj htail).1 (by decide)
    · refine membersFrom_chars hentry rfl ?_ rest
      have hlength := length_lt_moreMembers ms
      simp only [List.length_append, List.length_cons]
      omega

end Members

/-! ## Values -/

/-- the members of an object with rising names, each put behind those before it -/
theorem entersAll_putMember {read : Reader Json} {ms : List (String × Json)}
    (hrising : ms.Pairwise fun a b => compare a.1 b.1 = .lt) (hread : ∀ m ∈ ms, ReadsAs read m.2) :
    EntersAll (putMember read) id ms := by
  intro before m after hall rest hr
  rw [hall, List.pairwise_append] at hrising
  obtain ⟨-, -, hbefore⟩ := hrising
  have hm := (hread m (by simp [hall])).reads rest hr
  have hput : Table.put m.1 m.2 before = before ++ [m] := Table.put_concat fun e he => hbefore e he m List.mem_cons_self
  simp only [putMember, colon, skipSpace_cons (rfl : isSpace ':' = false), bind, Except.bind, hm, id_eq, hput]

theorem value_digit {c : Char} (hc : Double.isDigit c = true) (level : Nat) (cs : List Char) :
    value level (c :: cs) = number false (c :: cs) := by
  have hne : ∀ d, Double.isDigit d = false → c ≠ d := fun _ => ne_of_isDigit hc
  rw [value.eq_def]
  simp only [skipSpace_cons (isSpace_of_isDigit hc)]
  split <;> first | rfl | (rename_i h; exact absurd (List.cons.inj h).1 (hne _ rfl))

/-- **Plain values read back**, wherever they close, at every level that their nesting fits in. -/
theorem Plain.readsAs {v : Json} (hv : Plain v) {level : Nat} (hl : v.depth ≤ level) : ReadsAs (value level) v := by
  induction hv generalizing level with
  | null =>
    exact ⟨opens_chars Plain.null.ne_double, fun rest _ => by simp [value, chars, skipSpace, isSpace, word, Except.map]⟩
  | bool b =>
    refine ⟨opens_chars (Plain.bool b).ne_double, fun rest _ => ?_⟩
    cases b <;> simp [value, chars, skipSpace, isSpace, word, Except.map]
  | @int n hlow hhigh =>
    refine ⟨opens_chars (Plain.int hlow hhigh).ne_double, fun rest hr => ?_⟩
    rw [chars]
    by_cases hneg : n < 0
    · obtain ⟨cs, hcs, hnumber⟩ := number_of_neg hneg hlow
      rw [hcs, List.cons_append, value, skipSpace_cons rfl]
      exact hnumber rest hr
    · obtain ⟨c, cs, hcs, hdigit, hnumber⟩ := number_of_nonneg (Int.not_lt.1 hneg) hhigh
      rw [hcs, List.cons_append, value_digit hdigit]
      exact hnumber rest hr
  | string s =>
    refine ⟨opens_chars (Plain.string s).ne_double, fun rest _ => ?_⟩
    simp [chars, stringChars, value, skipSpace, isSpace, stringBody_chars, Except.map]
  | @array vs hitems ih =>
    refine ⟨opens_chars (Plain.array hitems).ne_double, fun rest _ => ?_⟩
    obtain ⟨below, rfl, hbelow⟩ := array_fits hl
    have hread : ∀ v ∈ vs, ReadsAs (value below) v := fun v hv => ih v hv (hbelow v hv)
    obtain ⟨tail, htail, hitems⟩ := items_chars hread
    rw [htail, List.cons_append, value, skipSpace_cons rfl]
    simp only [hitems, Except.map]
  | @object ms hrising hmembers ih =>
    refine ⟨opens_chars (Plain.object hrising hmembers).ne_double, fun rest _ => ?_⟩
    obtain ⟨below, rfl, hbelow⟩ := object_fits hl
    have hread : ∀ m ∈ ms, ReadsAs (value below) m.2 := fun m hm => ih m hm (hbelow m hm)
    obtain ⟨tail, htail, hmembers⟩ := members_chars (entersAll_putMember hrising hread)
    rw [htail, List.cons_append, value, skipSpace_cons rfl]
    simp only [id_eq] at hmembers
    simp only [hmembers, Except.map]

end Corkboard.Json
