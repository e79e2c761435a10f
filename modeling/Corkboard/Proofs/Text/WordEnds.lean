/-
Lower case of a part of a text.

Every character has one lower case but the capital sigma, whose small form depends on whether it ends a word, and so on
characters around it that may stand far away. Is the lower case of a text that stands in another one part of the lower
case of that one?

- `lowerFrom_append`: a text in lower case is the lower cases of its parts, each taken between the others.
- `lowerBetween_congr`: what stands around a part only matters to the ends of words at its capital sigmas.
- `lower_infix`: where these are the ends of words in the part by itself as well, its lower case is found in its place.
- `lower_infix_iff`: this is so in every text exactly if the part decides all of its ends of words. Otherwise one letter
  in front of it or behind it is enough to lose it: a small sigma of the one form is missing then, and the count of them
  tells.
-/
import Corkboard.Text.Lowercase
import Mathlib.Data.List.Infix

namespace Corkboard.Text

variable {c : Char} {cs before after x x' y y' : List Char}

/-! ## Ends of words -/

/-- a word ends between what comes before, the nearest first, and what comes after -/
def EndsWord (before after : List Char) : Prop := casedFirst before = true ∧ casedFirst after = false

instance (before after : List Char) : Decidable (EndsWord before after) := inferInstanceAs (Decidable (_ ∧ _))

theorem casedFirst_append_of_ignored {as bs : List Char} (h : ∀ a ∈ as, isIgnored a = true) :
    casedFirst (as ++ bs) = casedFirst bs := by
  rw [casedFirst, List.dropWhile_append_of_pos h, casedFirst]

/-- the first character that is not ignored hides what stands behind it -/
theorem casedFirst_append_of_shown {as bs : List Char} (h : ¬ ∀ a ∈ as, isIgnored a = true) :
    casedFirst (as ++ bs) = casedFirst as := by
  induction as with
  | nil => exact absurd (List.forall_mem_nil _) h
  | cons a as ih =>
    cases ha : isIgnored a with
    | true =>
      have hrest : ¬ ∀ a ∈ as, isIgnored a = true := fun hall => h (List.forall_mem_cons.2 ⟨ha, hall⟩)
      simpa [casedFirst, ha] using ih hrest
    | false => simp [casedFirst, ha]

theorem casedFirst_of_ignored (h : ∀ c ∈ cs, isIgnored c = true) : casedFirst cs = false := by
  rw [← List.append_nil cs, casedFirst_append_of_ignored h]
  rfl

theorem not_isIgnored_sigma : isIgnored 'Σ' = false := by decide +kernel

theorem sigma_not_mem (h : ∀ c ∈ cs, isIgnored c = true) : 'Σ' ∉ cs := fun hmem =>
  Bool.false_ne_true (not_isIgnored_sigma.symm.trans (h 'Σ' hmem))

/-- a capital sigma hides what stands behind it -/
theorem casedFirst_sigma (as bs bs' : List Char) : casedFirst (as ++ 'Σ' :: bs) = casedFirst (as ++ 'Σ' :: bs') := by
  have hshown : ¬ ∀ c ∈ as ++ ['Σ'], isIgnored c = true := fun hall =>
    sigma_not_mem hall (List.mem_append_right as (List.mem_singleton_self _))
  have hhidden : ∀ bs, casedFirst (as ++ 'Σ' :: bs) = casedFirst (as ++ ['Σ']) := by
    intro bs
    rw [← List.singleton_append, ← List.append_assoc, casedFirst_append_of_shown hshown]
  rw [hhidden bs, hhidden bs']

/-! ## Lower case between other characters -/

/-- the lower case of characters between others, those before them the nearest first -/
def lowerBetween (before : List Char) : List Char → List Char → List Char
  | [], _ => []
  | c :: cs, after => lowerChar before c (cs ++ after) ++ lowerBetween (c :: before) cs after

theorem lowerFrom_append (before as bs : List Char) :
    lowerFrom before (as ++ bs) = lowerBetween before as bs ++ lowerFrom (as.reverse ++ before) bs := by
  induction as generalizing before with
  | nil => rfl
  | cons a as ih =>
    rw [List.cons_append, lowerFrom, ih, lowerBetween, List.append_assoc, List.reverse_cons, List.append_assoc,
      List.singleton_append]

theorem lowerBetween_nil (before cs : List Char) : lowerBetween before cs [] = lowerFrom before cs := by
  simpa [lowerFrom] using (lowerFrom_append before cs []).symm

theorem lowerBetween_append (before as bs after : List Char) : lowerBetween before (as ++ bs) after =
    lowerBetween before as (bs ++ after) ++ lowerBetween (as.reverse ++ before) bs after := by
  induction as generalizing before with
  | nil => rfl
  | cons a as ih =>
    rw [List.cons_append, lowerBetween, ih, lowerBetween, List.append_assoc, List.append_assoc, List.reverse_cons,
      List.append_assoc, List.singleton_append]

theorem toNat_eq_sigma : c.toNat = 0x3A3 ↔ c = 'Σ' := by
  constructor
  · intro h
    rw [← Char.ofNat_toNat c, h]
  · rintro rfl
    rfl

theorem lowerChar_sigma (before after : List Char) :
    lowerChar before 'Σ' after = if EndsWord before after then ['ς'] else ['σ'] := by
  rw [lowerChar, if_pos (toNat_eq_sigma.2 rfl)]
  by_cases h : EndsWord before after
  · rw [if_pos h, h.1, h.2]
    rfl
  · rw [if_neg h]
    cases hbefore : casedFirst before <;> cases hafter : casedFirst after <;> simp_all [EndsWord]

theorem lowerChar_congr (h : c = 'Σ' → (EndsWord x y ↔ EndsWord x' y')) : lowerChar x c y = lowerChar x' c y' := by
  by_cases hc : c = 'Σ'
  · subst hc
    rw [lowerChar_sigma, lowerChar_sigma]
    exact if_congr (h rfl) rfl rfl
  · have hsigma : ¬ c.toNat = 0x3A3 := fun hn => hc (toNat_eq_sigma.1 hn)
    rw [lowerChar, lowerChar, if_neg hsigma, if_neg hsigma]

/-- at each capital sigma of the characters, a word ends between the one pair of texts exactly if it does between the
other -/
def SameEnds (cs x y x' y' : List Char) : Prop := ∀ before after, cs = before ++ 'Σ' :: after →
  (EndsWord (before.reverse ++ x) (after ++ y) ↔ EndsWord (before.reverse ++ x') (after ++ y'))

theorem lowerBetween_congr (h : SameEnds cs x y x' y') : lowerBetween x cs y = lowerBetween x' cs y' := by
  induction cs generalizing x x' with
  | nil => rfl
  | cons c cs ih =>
    have hfirst : lowerChar x c (cs ++ y) = lowerChar x' c (cs ++ y') := by
      refine lowerChar_congr fun hc => ?_
      subst hc
      exact h [] cs rfl
    have hrest : SameEnds cs (c :: x) y (c :: x') y' := by
      intro before after hcs
      have hends := h (c :: before) after (by rw [hcs, List.cons_append])
      simpa using hends
    rw [lowerBetween, lowerBetween, hfirst, ih hrest]

/-- **A part in lower case.** Where the ends of words at its capital sigmas are those of the part by itself, the lower
case of a part is part of the lower case of the text. -/
theorem lower_infix (h : SameEnds cs [] [] before.reverse after) :
    lowerFrom [] cs <:+: lowerFrom [] (before ++ cs ++ after) := by
  have hpart : lowerBetween before.reverse cs after = lowerFrom [] cs := by
    rw [← lowerBetween_nil]
    exact (lowerBetween_congr h).symm
  rw [lowerFrom_append, lowerBetween_append, List.append_nil, hpart]
  exact ⟨_, _, rfl⟩

/-! ## Ends that are decided elsewhere -/

/-- a capital sigma whose small form the text does not decide: nothing but ignored characters is before it and no cased
character is next after them, or a cased character is next before it and nothing but ignored characters is after it -/
def Undecided (cs : List Char) : Prop := ∃ before after, cs = before ++ 'Σ' :: after ∧
  (((∀ c ∈ before, isIgnored c = true) ∧ casedFirst after = false) ∨
    (casedFirst before.reverse = true ∧ ∀ c ∈ after, isIgnored c = true))

theorem undecided_iff : Undecided cs ↔ ∃ i < cs.length, cs[i]? = some 'Σ' ∧
    (((cs.take i).all isIgnored = true ∧ casedFirst (cs.drop (i + 1)) = false) ∨
      (casedFirst (cs.take i).reverse = true ∧ (cs.drop (i + 1)).all isIgnored = true)) := by
  simp only [List.all_eq_true]
  constructor
  · rintro ⟨before, after, rfl, hopen⟩
    refine ⟨before.length, by simp, by simp, ?_⟩
    rwa [List.take_left, List.drop_append, List.drop_of_length_le (Nat.le_succ _), Nat.add_sub_cancel_left]
  · rintro ⟨i, hi, hsigma, hopen⟩
    refine ⟨cs.take i, cs.drop (i + 1), ?_, hopen⟩
    obtain ⟨_, hget⟩ := List.getElem?_eq_some_iff.1 hsigma
    rw [← hget, ← List.drop_eq_getElem_cons, List.take_append_drop]

instance : DecidablePred Undecided := fun _ => decidable_of_iff _ undecided_iff.symm

theorem sameEnds_of_decided (h : ¬ Undecided cs) (x y : List Char) : SameEnds cs [] [] x y := by
  intro before after hcs
  have hleft : (∀ c ∈ before, isIgnored c = true) → casedFirst after = true := fun hbefore =>
    Bool.of_not_eq_false fun hafter => h ⟨before, after, hcs, .inl ⟨hbefore, hafter⟩⟩
  have hright : casedFirst before.reverse = true → ¬ ∀ c ∈ after, isIgnored c = true := fun hbefore hafter =>
    h ⟨before, after, hcs, .inr ⟨hbefore, hafter⟩⟩
  rw [List.append_nil, List.append_nil, EndsWord, EndsWord]
  by_cases hbefore : ∀ c ∈ before.reverse, isIgnored c = true
  · -- no word ends in front of a cased character
    have hafter : casedFirst after = true := hleft (by simpa using hbefore)
    have hnot : ¬ ∀ c ∈ after, isIgnored c = true := fun hall => by
      rw [casedFirst_of_ignored hall] at hafter
      exact Bool.false_ne_true hafter
    have hshown : casedFirst (after ++ y) = true := (casedFirst_append_of_shown hnot).trans hafter
    rw [hafter, hshown]
    simp
  · rw [casedFirst_append_of_shown hbefore]
    refine and_congr_right fun hcased => ?_
    rw [casedFirst_append_of_shown (hright hcased)]

theorem sameEnds_of_not_mem (h : 'Σ' ∉ cs) : SameEnds cs x y x' y' := by
  intro before after hcs
  exact absurd (hcs ▸ List.mem_append_right before List.mem_cons_self) h

/-- what stands behind a capital sigma does not matter to what is in front of it -/
theorem lowerBetween_before_sigma (x cs y y' : List Char) :
    lowerBetween x cs ('Σ' :: y) = lowerBetween x cs ('Σ' :: y') := by
  refine lowerBetween_congr fun before after _ => ?_
  rw [EndsWord, EndsWord, casedFirst_sigma after y y']

/-- what stands in front of a capital sigma does not matter to what is behind it -/
theorem lowerBetween_after_sigma (x x' cs y : List Char) :
    lowerBetween ('Σ' :: x) cs y = lowerBetween ('Σ' :: x') cs y := by
  refine lowerBetween_congr fun before after _ => ?_
  rw [EndsWord, EndsWord, casedFirst_sigma before.reverse x x']

/-- the parts of a text around a capital sigma do not see each other, and both decide about its small form -/
theorem lowerBetween_sigma (x before after y : List Char) : lowerBetween x (before ++ 'Σ' :: after) y =
    lowerBetween x before ['Σ'] ++ (if EndsWord (before.reverse ++ x) (after ++ y) then 'ς' else 'σ') ::
      lowerBetween ['Σ'] after y := by
  rw [lowerBetween_append, lowerBetween, lowerChar_sigma, List.cons_append,
    lowerBetween_before_sigma x before (after ++ y) [], lowerBetween_after_sigma (before.reverse ++ x) [] after y]
  split <;> rfl

theorem lowerChar_a (before after : List Char) : lowerChar before 'a' after = ['a'] := by
  have hsmall : smallLetter 'a' = 'a' := by decide +kernel
  simp [lowerChar, hsmall]

theorem casedFirst_a : casedFirst ['a'] = true := by decide +kernel

/-- a text is not part of one that has another character in one place, and nowhere else the character of that place -/
theorem not_infix_of_replaced {left right front back : List Char} {d : Char} (hd : d ≠ c) (hfront : c ∉ front)
    (hback : c ∉ back) :
    ¬ (left ++ c :: right) <:+: front ++ (left ++ d :: right) ++ back := by
  intro hinfix
  have hcount := hinfix.count_le c
  rw [List.count_append, List.count_cons_self, List.count_append, List.count_append, List.count_append,
    List.count_cons_of_ne hd, List.count_eq_zero.2 hfront, List.count_eq_zero.2 hback] at hcount
  omega

/-- a word that ends at a capital sigma of a part, but not there in the text, or the other way round -/
theorem not_infix_of_moved (hbefore : lowerBetween x before ['Σ'] = lowerBetween [] before ['Σ'])
    (hafter : lowerBetween ['Σ'] after y = lowerBetween ['Σ'] after [])
    (hmoved : ¬ (EndsWord before.reverse after ↔ EndsWord (before.reverse ++ x) (after ++ y))) (front back : List Char)
    (hfront : 'σ' ∉ front ∧ 'ς' ∉ front) (hback : 'σ' ∉ back ∧ 'ς' ∉ back) :
    ¬ lowerFrom [] (before ++ 'Σ' :: after) <:+: front ++ lowerBetween x (before ++ 'Σ' :: after) y ++ back := by
  rw [← lowerBetween_nil, lowerBetween_sigma, lowerBetween_sigma, hbefore, hafter, List.append_nil, List.append_nil]
  by_cases hends : EndsWord before.reverse after
  · have hgoes : ¬ EndsWord (before.reverse ++ x) (after ++ y) := fun h => hmoved ⟨fun _ => h, fun _ => hends⟩
    rw [if_pos hends, if_neg hgoes]
    exact not_infix_of_replaced (by decide) hfront.2 hback.2
  · have hstops : EndsWord (before.reverse ++ x) (after ++ y) :=
      Classical.byContradiction fun h => hmoved ⟨fun h' => absurd h' hends, fun h' => absurd h' h⟩
    rw [if_neg hends, if_pos hstops]
    exact not_infix_of_replaced (by decide) hfront.1 hback.1

/-- one letter in front or behind is enough to lose a part that leaves an end of a word open -/
theorem not_infix_of_undecided (h : Undecided cs) :
    ¬ lowerFrom [] cs <:+: lowerFrom [] ('a' :: cs) ∨ ¬ lowerFrom [] cs <:+: lowerFrom [] (cs ++ ['a']) := by
  obtain ⟨before, after, rfl, ⟨hbefore, hafter⟩ | ⟨hbefore, hafter⟩⟩ := h
  · left
    have hsame : lowerBetween ['a'] before ['Σ'] = lowerBetween [] before ['Σ'] :=
      lowerBetween_congr (sameEnds_of_not_mem (sigma_not_mem hbefore))
    have hreverse : ∀ c ∈ before.reverse, isIgnored c = true := fun c hc => hbefore c (List.mem_reverse.1 hc)
    have hmoved : ¬ (EndsWord before.reverse after ↔ EndsWord (before.reverse ++ ['a']) (after ++ [])) := by
      rw [EndsWord, EndsWord, casedFirst_append_of_ignored hreverse, casedFirst_of_ignored hreverse, casedFirst_a,
        List.append_nil, hafter]
      decide
    have hlost := not_infix_of_moved hsame rfl hmoved ['a'] [] (by decide) (by decide)
    rwa [lowerFrom, lowerChar_a, ← lowerBetween_nil ['a'], ← List.append_nil (['a'] ++ _)]
  · right
    have hsame : lowerBetween ['Σ'] after ['a'] = lowerBetween ['Σ'] after [] :=
      lowerBetween_congr (sameEnds_of_not_mem (sigma_not_mem hafter))
    have hmoved : ¬ (EndsWord before.reverse after ↔ EndsWord (before.reverse ++ []) (after ++ ['a'])) := by
      rw [EndsWord, EndsWord, casedFirst_append_of_ignored hafter, casedFirst_of_ignored hafter, casedFirst_a,
        List.append_nil, hbefore]
      decide
    have hlost := not_infix_of_moved rfl hsame hmoved [] ['a'] (by decide) (by decide)
    have hletter : lowerFrom ((before ++ 'Σ' :: after).reverse ++ []) ['a'] = ['a'] := by
      rw [lowerFrom, lowerFrom, lowerChar_a, List.append_nil]
    rwa [lowerFrom_append [] (before ++ 'Σ' :: after) ['a'], hletter]

/-- **Parts of all texts.** The lower case of a text is part of the lower case of every text that it is part of, exactly
if it decides the small forms of all of its capital sigmas. -/
theorem lower_infix_iff :
    (∀ text, cs <:+: text → lowerFrom [] cs <:+: lowerFrom [] text) ↔ ¬ Undecided cs := by
  constructor
  · intro hall hundecided
    rcases not_infix_of_undecided hundecided with hlost | hlost
    · exact hlost (hall _ (List.infix_cons (List.infix_refl cs)))
    · exact hlost (hall _ (List.prefix_append cs ['a']).isInfix)
  · rintro hdecided text ⟨before, after, rfl⟩
    exact lower_infix (sameEnds_of_decided hdecided before.reverse after)

end Corkboard.Text
