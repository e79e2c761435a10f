/-
Identifiers read back.

The grouped form of an identifier is read as that identifier (`parse?_render`): it is none of the other accepted forms,
its groups are found again between the dashes, and their digits make up the number.
-/
import Mathlib.Algebra.GroupWithZero.Nat
import Corkboard.Uuid

namespace Corkboard.Uuid

/-! ## Digits -/

theorem digitValue?_digitChar {d : Nat} (hd : d < 16) : digitValue? (digitChar d) = some d := by
  have hall : ∀ k : Fin 16, digitValue? (digitChar k) = some k.val := by decide
  exact hall ⟨d, hd⟩

theorem length_digits (w n : Nat) : (digits w n).length = w := by
  induction w generalizing n with
  | zero => rfl
  | succ w ih => simp [digits, ih]

theorem mem_digits {w n : Nat} {c : Char} (hc : c ∈ digits w n) : ∃ d < 16, c = digitChar d := by
  induction w generalizing n with
  | zero => cases hc
  | succ w ih =>
    rcases List.mem_append.1 hc with hc | hc
    · exact ih hc
    · exact ⟨n % 16, Nat.mod_lt _ (by omega), List.mem_singleton.1 hc⟩

theorem ne_of_mem_digits {w n : Nat} {c x : Char} (hc : c ∈ digits w n) (hx : digitValue? x = none) : c ≠ x := by
  rintro rfl
  obtain ⟨d, hd, rfl⟩ := mem_digits hc
  rw [digitValue?_digitChar hd] at hx
  cases hx

theorem numberFrom_append (acc : Nat) (cs ds : List Char) :
    numberFrom acc (cs ++ ds) = (numberFrom acc cs).bind fun n => numberFrom n ds := by
  induction cs generalizing acc with
  | nil => rfl
  | cons c cs ih =>
    rw [List.cons_append, numberFrom, numberFrom, Option.bind_assoc]
    exact Option.bind_congr fun d _ => ih (16 * acc + d)

/-- the last digits of a number make up what they stand for -/
theorem numberFrom_digits (acc w n : Nat) : numberFrom acc (digits w n) = some (acc * 16 ^ w + n % 16 ^ w) := by
  induction w generalizing n with
  | zero => simp [digits, numberFrom, Nat.mod_one]
  | succ w ih =>
    have hlast : digitValue? (digitChar (n % 16)) = some (n % 16) := digitValue?_digitChar (Nat.mod_lt _ (by omega))
    have hmod : n % (16 * 16 ^ w) = n % 16 + 16 * (n / 16 % 16 ^ w) := Nat.mod_mul
    rw [digits, numberFrom_append, ih, Option.bind_some]
    simp only [numberFrom, hlast, Option.bind_some, Option.some.injEq]
    rw [Nat.pow_succ', hmod, Nat.mul_left_comm acc]
    omega

/-! ## Groups -/

theorem groups_flatten {ws : List Nat} {cs : List Char} (h : cs.length = ws.sum) :
    (groups ws cs).flatten = cs ∧ (groups ws cs).map (·.length) = ws := by
  induction ws generalizing cs with
  | nil => exact ⟨(List.length_eq_zero_iff.1 h).symm, rfl⟩
  | cons w ws ih =>
    rw [List.sum_cons] at h
    have hdrop : (cs.drop w).length = ws.sum := by
      rw [List.length_drop]
      omega
    obtain ⟨hflat, hlengths⟩ := ih hdrop
    constructor
    · rw [groups, List.flatten_cons, hflat, List.take_append_drop]
    · rw [groups, List.map_cons, hlengths, List.length_take, Nat.min_eq_left (by omega)]

theorem ofDigits?_digits (u : Uuid) : ofDigits? (digits 32 u.bits.toNat) = some u := by
  have hbits : u.bits.toNat % 16 ^ 32 = u.bits.toNat := Nat.mod_eq_of_lt u.bits.isLt
  rw [ofDigits?, if_pos (length_digits _ _), numberFrom_digits, hbits]
  simp

theorem ofGrouped?_intercalate (u : Uuid) :
    ofGrouped? (['-'].intercalate (groups groupLengths (digits 32 u.bits.toNat))) = some u := by
  have hsum : (digits 32 u.bits.toNat).length = groupLengths.sum := length_digits 32 u.bits.toNat
  obtain ⟨hflat, hlengths⟩ := groups_flatten hsum
  have hdash : ∀ g ∈ groups groupLengths (digits 32 u.bits.toNat), '-' ∉ g := by
    intro g hg hmem
    have hdigit : '-' ∈ digits 32 u.bits.toNat := hflat ▸ List.mem_flatten.2 ⟨g, hg, hmem⟩
    exact ne_of_mem_digits hdigit (by decide) rfl
  have hsplit := List.splitOn_intercalate '-' hdash (by simp [groups, groupLengths])
  rw [List.splitOn] at hsplit
  simp only [ofGrouped?, hsplit, hlengths, if_true, hflat]
  exact ofDigits?_digits u

/-- the grouped form begins with a digit and has four dashes besides the digits -/
theorem intercalate_groups (n : Nat) : ∃ c cs, c ∈ digits 32 n ∧
    ['-'].intercalate (groups groupLengths (digits 32 n)) = c :: cs ∧ (c :: cs).length = 36 := by
  have hform : ∀ ds : List Char, ['-'].intercalate (groups groupLengths ds) = ds.take 8 ++ '-' :: ((ds.drop 8).take 4 ++
      '-' :: (((ds.drop 8).drop 4).take 4 ++ '-' :: ((((ds.drop 8).drop 4).drop 4).take 4 ++
        '-' :: ((((ds.drop 8).drop 4).drop 4).drop 4).take 12))) := by
    intro ds
    simp [groups, groupLengths, List.intercalate]
  obtain ⟨c, cs, hcs⟩ := List.exists_cons_of_length_eq_add_one (length_digits 32 n)
  have hlength : cs.length = 31 := by simpa [hcs] using length_digits 32 n
  rw [hform, hcs]
  refine ⟨c, _, List.mem_cons_self, rfl, ?_⟩
  simp [hlength]

/-- **Identifiers read back.** -/
theorem parse?_render (u : Uuid) : parse? u.render = some u := by
  obtain ⟨c, cs, hmem, hform, hlength⟩ := intercalate_groups u.bits.toNat
  have hgrouped := ofGrouped?_intercalate u
  have hbrace : c ≠ '\x7b' := ne_of_mem_digits hmem (by decide)
  have hurn : ((c :: cs).take 9).map Char.toLower ≠ "urn:uuid:".toList := by
    intro h
    have hall : ∀ k : Fin 16, (digitChar k).toLower ≠ 'u' := by decide
    obtain ⟨d, hd, rfl⟩ := mem_digits hmem
    exact hall ⟨d, hd⟩ (List.cons.inj h).1
  rw [hform] at hgrouped
  rw [parse?, render, String.toList_ofList, hform]
  split
  · rename_i h
    exact absurd (List.cons.inj h).1 hbrace
  · rw [if_neg hurn, if_neg (by omega)]
    exact hgrouped

end Corkboard.Uuid
