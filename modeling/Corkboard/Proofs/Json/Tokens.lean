/-
Strings and whole numbers read back.

What is written for a string is read as that string, whatever comes after it. What is written for a whole number of 64
bits is read as that number, provided that the text ends there or goes on with a comma or a closing bracket.

- `stringBody_chars`: every string, after its opening quote.
- `number_of_nonneg`, `number_of_neg`: every whole number of 64 bits, after its sign.
-/
import Corkboard.Json.Printer
import Corkboard.Json.Reader

namespace Corkboard.Json

/-! ## Strings -/

/-- the piece of a written string that stands for a character -/
def piece (c : Char) : StringPiece :=
  if c.toNat < 32 ∧ c.toNat ∉ [8, 9, 10, 12, 13] then .unit c.toNat else .char c

theorem hexValue?_hexChar {n : Nat} (hn : n < 16) : hexValue? (hexChar n) = some n := by
  have hall : ∀ k : Fin 16, hexValue? (hexChar k) = some k.val := by decide
  exact hall ⟨n, hn⟩

theorem unit?_hexChar {n : Nat} (hn : n < 32) : unit? '0' '0' (hexChar (n / 16)) (hexChar (n % 16)) = some n := by
  have hzero : hexValue? '0' = some 0 := by decide
  have hhigh : hexValue? (hexChar (n / 16)) = some (n / 16) := hexValue?_hexChar (by omega)
  have hlow : hexValue? (hexChar (n % 16)) = some (n % 16) := hexValue?_hexChar (by omega)
  simp only [unit?, hzero, hhigh, hlow, bind, Option.bind, pure, Option.some.injEq]
  omega

theorem pieces_unescape {e c : Char} (he : unescape? e = some c) (cs : List Char) :
    pieces ('\\' :: e :: cs) = (pieces cs).map fun r => (.char c :: r.1, r.2) := by
  have hnone : unescape? 'u' = none := by decide
  have hne : e ≠ 'u' := by
    rintro rfl
    rw [hnone] at he
    cases he
  rw [pieces, he, Option.bind_some]
  rintro a b c d cs' hu
  exact absurd hu hne

theorem pieces_unit {a b c d : Char} {n : Nat} (hn : unit? a b c d = some n) (cs : List Char) :
    pieces ('\\' :: 'u' :: a :: b :: c :: d :: cs) = (pieces cs).map fun r => (.unit n :: r.1, r.2) := by
  rw [pieces, hn, Option.bind_some]

theorem pieces_char {c : Char} (hquote : c ≠ '"') (hslash : c ≠ '\\') (hspace : 32 ≤ c.toNat) (cs : List Char) :
    pieces (c :: cs) = (pieces cs).map fun r => (.char c :: r.1, r.2) := by
  have hplain : ¬(c.toNat < 32 ∨ c = '\\') := not_or.2 ⟨Nat.not_lt.2 hspace, hslash⟩
  rw [pieces, if_neg hplain]
  · exact hquote
  · exact fun _ _ _ _ _ hc _ => hslash hc
  · exact fun _ _ hc _ => hslash hc

/-- what is written for a character is one piece -/
theorem pieces_escape (c : Char) (cs : List Char) :
    pieces (escape c ++ cs) = (pieces cs).map fun r => (piece c :: r.1, r.2) := by
  have hshort : ∀ {n : Nat} {e : Char}, c.toNat = n → n ∈ [8, 9, 10, 12, 13] → unescape? e = some (Char.ofNat n) →
      pieces (['\\', e] ++ cs) = (pieces cs).map fun r => (piece c :: r.1, r.2) := by
    rintro n e rfl hn he
    rw [piece, if_neg fun h => h.2 hn]
    rw [Char.ofNat_toNat] at he
    exact pieces_unescape he cs
  unfold escape
  split
  · rename_i hc
    subst hc
    exact pieces_unescape rfl cs
  split
  · rename_i hc
    subst hc
    exact pieces_unescape rfl cs
  split
  · rename_i hc
    exact hshort hc (by decide) rfl
  split
  · rename_i hc
    exact hshort hc (by decide) rfl
  split
  · rename_i hc
    exact hshort hc (by decide) rfl
  split
  · rename_i hc
    exact hshort hc (by decide) rfl
  split
  · rename_i hc
    exact hshort hc (by decide) rfl
  split
  · rename_i h8 h9 h10 h12 h13 hlow
    rw [piece, if_pos ⟨hlow, by simp [h8, h9, h10, h12, h13]⟩]
    exact pieces_unit (unit?_hexChar hlow) cs
  · rename_i hquote hslash _ _ _ _ _ hhigh
    rw [piece, if_neg fun h => hhigh h.1]
    exact pieces_char hquote hslash (by omega) cs

/-- the pieces of a written string, up to its closing quote: by induction on its characters -/
theorem pieces_flatMap_escape (cs rest : List Char) :
    pieces (cs.flatMap escape ++ '"' :: rest) = some (cs.map piece, rest) := by
  induction cs with
  | nil => simp [pieces]
  | cons c cs ih => rw [List.flatMap_cons, List.append_assoc, pieces_escape, ih, Option.map_some, List.map_cons]

theorem joinPieces_unit {n : Nat} (hn : n < 0xD800) (ps : List StringPiece) :
    joinPieces (.unit n :: ps) = (joinPieces ps).map (Char.ofNat n :: ·) := by
  rw [joinPieces.eq_def]
  simp only [hn, true_or, if_true]

/-- no unit among the pieces of a written string is half of a pair -/
theorem joinPieces_map_piece (cs : List Char) : joinPieces (cs.map piece) = some cs := by
  induction cs with
  | nil => rfl
  | cons c cs ih =>
    rw [List.map_cons, piece]
    split
    · rename_i hc
      rw [joinPieces_unit (by omega), ih, Char.ofNat_toNat, Option.map_some]
    · rw [joinPieces, ih, Option.map_some]

/-- **Strings read back.** -/
theorem stringBody_chars (s : String) (rest : List Char) :
    stringBody (s.toList.flatMap escape ++ '"' :: rest) = .ok (s, rest) := by
  simp only [stringBody, pieces_flatMap_escape, joinPieces_map_piece, String.ofList_toList]

/-! ## Whole numbers -/

/-- the text ends, or goes on with a comma or a closing bracket -/
def Closes (rest : List Char) : Prop := ∀ c ∈ rest.head?, c = ',' ∨ c = ']' ∨ c = '\x7d'

theorem ne_of_isDigit {c d : Char} (hc : Double.isDigit c = true) (hd : Double.isDigit d = false) : c ≠ d := by
  rintro rfl
  rw [hc] at hd
  cases hd

theorem isSpace_of_isDigit {c : Char} (hc : Double.isDigit c = true) : isSpace c = false := by
  have hne : ∀ d, Double.isDigit d = false → c ≠ d := fun _ => ne_of_isDigit hc
  simp [isSpace, hne ' ' rfl, hne '\n' rfl, hne '\t' rfl, hne '\r' rfl]

theorem isDigit_of_mem_natChars {n : Nat} {c : Char} (hc : c ∈ natChars n) : Double.isDigit c = true := by
  have hdigit : c.isDigit = true := Nat.isDigit_of_mem_toDigits (by omega) (by omega) hc
  simpa [Char.isDigit, Double.isDigit, Char.le_def] using hdigit

theorem natChars_ne_nil (n : Nat) : natChars n ≠ [] := Nat.toDigits_ne_nil

theorem digitChar_eq_zero_iff {d : Nat} (hd : d < 10) : Nat.digitChar d = '0' ↔ d = 0 := by
  have hall : ∀ k : Fin 10, Nat.digitChar k = '0' ↔ k.val = 0 := by decide
  exact hall ⟨d, hd⟩

/-- only zero is written with a zero first -/
theorem eq_zero_of_head_natChars (n : Nat) (hn : (natChars n).head? = some '0') : n = 0 := by
  induction n using Nat.strongRecOn with
  | ind n ih =>
    rw [natChars, Nat.toDigits_eq_if (by omega)] at hn
    split at hn
    · rename_i hlt
      exact (digitChar_eq_zero_iff hlt).1 (Option.some.inj hn)
    · rename_i hge
      obtain ⟨c, cs, hcs⟩ := List.exists_cons_of_ne_nil (natChars_ne_nil (n / 10))
      have hfirst : (natChars (n / 10)).head? = some '0' := by
        rw [natChars] at hcs
        rw [hcs] at hn
        rw [natChars, hcs]
        exact hn
      have hzero := ih (n / 10) (by omega) hfirst
      omega

theorem digitsFrom_natChars (n : Nat) : Double.digitsFrom 0 (natChars n) = n :=
  Nat.ofDigitChars_toDigits (by omega) (by omega)

theorem takeDigits_append {ds rest : List Char} (hds : ∀ c ∈ ds, Double.isDigit c = true) (hr : Closes rest) :
    Double.takeDigits (ds ++ rest) = (ds, rest) := by
  have hstop : ∀ c ∈ rest.head?, Double.isDigit c = false := by
    intro c hc
    rcases hr c hc with rfl | rfl | rfl <;> decide
  rw [Double.takeDigits, List.takeWhile_append_of_pos hds, List.dropWhile_append_of_pos hds]
  cases rest with
  | nil => simp
  | cons c cs => simp [hstop c rfl]

theorem scan_natChars (negative : Bool) (n : Nat) {rest : List Char} (hr : Closes rest) :
    Literal.scan negative (natChars n ++ rest) = some (⟨negative, natChars n, none, none⟩, rest) := by
  have hplaces : Literal.scanPlaces rest = some (none, rest) := by
    unfold Literal.scanPlaces
    split
    · rcases hr _ rfl with h | h | h <;> cases h
    · rfl
  have hexponent : Literal.scanExponent rest = some (none, rest) := by
    unfold Literal.scanExponent
    split
    · rcases hr _ rfl with h | h | h <;> cases h
    · rcases hr _ rfl with h | h | h <;> cases h
    · rfl
  have hform : ¬ (natChars n = [] ∨ ((natChars n).head? = some '0' ∧ natChars n ≠ ['0'])) := by
    rintro (h | ⟨hhead, hne⟩)
    · exact natChars_ne_nil n h
    · obtain rfl := eq_zero_of_head_natChars n hhead
      exact hne rfl
  simp only [Literal.scan, takeDigits_append (fun _ => isDigit_of_mem_natChars) hr, if_neg hform, hplaces, hexponent,
    bind, Option.bind, pure]

theorem le_digitsFrom (m : Nat) (ds : List Char) : m ≤ Double.digitsFrom m ds := by
  induction ds generalizing m with
  | nil => exact Nat.le_refl m
  | cons c cs ih => exact Nat.le_trans (by omega) (ih (10 * m + (c.toNat - 48)))

/-- all digits are gathered while the number stays below the limit -/
theorem gather_of_lt {m : Nat} {ds : List Char} (hm : Double.digitsFrom m ds < Literal.wordLimit) :
    Literal.gather m ds = (Double.digitsFrom m ds, []) := by
  induction ds generalizing m with
  | nil => rfl
  | cons c cs ih =>
    have hnext : 10 * m + (c.toNat - 48) < Literal.wordLimit := Nat.lt_of_le_of_lt (le_digitsFrom _ cs) hm
    rw [Literal.gather, if_pos hnext]
    exact ih hm

theorem gather_natChars {n : Nat} (hn : n < Literal.wordLimit) : Literal.gather 0 (natChars n) = (n, []) := by
  rw [gather_of_lt (by rwa [digitsFrom_natChars]), digitsFrom_natChars]

/-- **Whole numbers read back**, from zero on. -/
theorem number_of_nonneg {n : Int} (hn : 0 ≤ n) (hhigh : n < 0x10000000000000000) :
    ∃ c cs, intChars n = c :: cs ∧ Double.isDigit c = true ∧
      ∀ rest, Closes rest → number false (c :: (cs ++ rest)) = .ok (.int n, rest) := by
  obtain ⟨c, cs, hcs⟩ := List.exists_cons_of_ne_nil (natChars_ne_nil n.natAbs)
  have hlimit : n.natAbs < Literal.wordLimit := by
    rw [Literal.wordLimit]
    omega
  refine ⟨c, cs, by rw [intChars, if_neg (by omega), hcs], isDigit_of_mem_natChars (hcs ▸ List.mem_cons_self),
    fun rest hr => ?_⟩
  have hscan := scan_natChars false n.natAbs hr
  rw [← List.cons_append, ← hcs]
  simp [number, hscan, Literal.value, gather_natChars hlimit, Int.natAbs_of_nonneg hn]

/-- **Whole numbers read back**, below zero and after their sign. -/
theorem number_of_neg {n : Int} (hn : n < 0) (hlow : -0x8000000000000000 ≤ n) :
    ∃ cs, intChars n = '-' :: cs ∧ ∀ rest, Closes rest → number true (cs ++ rest) = .ok (.int n, rest) := by
  have hlimit : n.natAbs < Literal.wordLimit := by
    rw [Literal.wordLimit]
    omega
  have hwhole : ¬ (n.natAbs = 0 ∨ n.natAbs > 0x8000000000000000) := by omega
  have hvalue : -(n.natAbs : Int) = n := by omega
  refine ⟨natChars n.natAbs, if_pos hn, fun rest hr => ?_⟩
  have hscan := scan_natChars true n.natAbs hr
  simp only [number, hscan, Literal.value, gather_natChars hlimit, ne_eq, not_true_eq_false, if_false, Bool.not_true,
    if_neg hwhole, hvalue, Bool.false_eq_true]

end Corkboard.Json
