/-
Blank characters, trimming and words.

The blanks are the characters of the Unicode property White_Space. A text is trimmed by taking the blanks off both ends,
it is blank when nothing remains, and its words are its longest runs without a blank.
-/
namespace Corkboard.Text

/-- a character of Unicode White_Space -/
def isBlankChar (c : Char) : Bool :=
  let n := c.toNat
  (9 ≤ n && n ≤ 13) || n == 0x20 || n == 0x85 || n == 0xA0 || n == 0x1680 || (0x2000 ≤ n && n ≤ 0x200A) ||
    n == 0x2028 || n == 0x2029 || n == 0x202F || n == 0x205F || n == 0x3000

/-- the characters without the blanks at either end -/
def trimChars (cs : List Char) : List Char := ((cs.dropWhile isBlankChar).reverse.dropWhile isBlankChar).reverse

def trim (s : String) : String := .ofList (trimChars s.toList)

/-- nothing but blanks -/
def isBlank (s : String) : Bool := s.toList.all isBlankChar

/-- the longest runs without a blank, in order -/
def words (s : String) : List String :=
  ((s.toList.splitOnP isBlankChar).filter (· ≠ [])).map .ofList

/-- the text without the opening `p`, when it opens with `p` -/
def dropOpening? (p s : String) : Option String :=
  if p.toList.isPrefixOf s.toList then some (.ofList (s.toList.drop p.toList.length)) else none

/-- the text opens with `p` -/
def opensWith (p s : String) : Bool := p.toList.isPrefixOf s.toList

/-- the first place where the characters `p` stand: what is before them and what is after -/
def cutAt (p : List Char) : List Char → Option (List Char × List Char)
  | [] => if p = [] then some ([], []) else none
  | c :: cs =>
    if p.isPrefixOf (c :: cs) then some ([], (c :: cs).drop p.length)
    else (cutAt p cs).map fun r => (c :: r.1, r.2)

/-- the text `p` stands somewhere in `s` -/
def occursIn (p s : String) : Bool := (cutAt p.toList s.toList).isSome

/-! ## Laws -/

theorem dropWhile_eq_nil_iff_all {p : Char → Bool} {cs : List Char} : cs.dropWhile p = [] ↔ cs.all p = true := by
  induction cs with
  | nil => simp
  | cons c cs ih => cases h : p c <;> simp_all

theorem all_dropWhile (p : Char → Bool) (cs : List Char) : (cs.dropWhile p).all p = cs.all p := by
  induction cs with
  | nil => rfl
  | cons c cs ih => cases h : p c <;> simp_all

theorem trim_eq_empty_iff (s : String) : trim s = "" ↔ isBlank s = true := by
  rw [trim, String.ofList_eq_empty_iff, trimChars, isBlank, List.reverse_eq_nil_iff, dropWhile_eq_nil_iff_all,
    List.all_reverse, all_dropWhile]

theorem isBlank_trim (s : String) : isBlank (trim s) = isBlank s := by
  rw [isBlank, trim, String.toList_ofList, trimChars, List.all_reverse, all_dropWhile, List.all_reverse, all_dropWhile,
    isBlank]

/-- A cut loses nothing: before, mark and after make up the text. -/
theorem append_of_cutAt {p cs a b : List Char} (h : cutAt p cs = some (a, b)) : cs = a ++ p ++ b := by
  induction cs generalizing a with
  | nil =>
    unfold cutAt at h
    split at h <;> simp_all
  | cons c cs ih =>
    unfold cutAt at h
    split at h
    case isTrue hp =>
      obtain ⟨rfl, rfl⟩ := by simpa using h
      obtain ⟨t, ht⟩ := List.isPrefixOf_iff_prefix.1 hp
      simp [← ht]
    case isFalse =>
      obtain ⟨⟨a', b'⟩, hr, he⟩ := Option.map_eq_some_iff.1 h
      obtain ⟨rfl, rfl⟩ := by simpa using he
      simp [ih hr]

/-- The opening and what remains after it make up the text. -/
theorem append_of_dropOpening? {p s r : String} (h : dropOpening? p s = some r) : s = p ++ r := by
  unfold dropOpening? at h
  split at h
  case isTrue hp =>
    obtain ⟨t, ht⟩ := List.isPrefixOf_iff_prefix.1 hp
    obtain rfl := Option.some.inj h
    apply String.toList_injective
    simp [← ht]
  case isFalse => simp at h

end Corkboard.Text
