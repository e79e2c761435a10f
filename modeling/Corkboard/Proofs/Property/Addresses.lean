/-
What passes for an email address and for a link.

Both types test the characters of the trimmed input with a few cuts. Which texts pass? An address should be a name, one
mark and a domain of labels between dots; a link should be a scheme with something behind it, or a host of labels with
any tail.

- `isHost_iff`, `isDomain_iff`: a host has two labels or more and none is empty; a domain has two or more of which the
  first and the last are not empty, since it is cut at its first dot only.
- `isEmail_iff`, `isLink_iff`: the tests against the shapes `Mail`, `SchemeLink` and `HostLink`. The mark of a scheme is
  looked for in the whole text, so a host is only looked for in a text without it.
- `email_accepted_iff`: which inputs are stored and which are refused as addresses, and where this is what the labels
  promise. `empty_label_accepted` is an address with an empty label between two others.
- `link_accepted_iff`: the same for links. `link_with_link_refused` is a host whose tail holds another link.
-/
import Corkboard.Proofs.Property.Keys
import Corkboard.Proofs.Text.Cuts

namespace Corkboard

namespace Address

variable {cs name name' domain scheme rest tail l : List Char} {labels labels' : List (List Char)}

/-! ## Labels -/

/-- labels without a dot that make up the text when they are joined by dots -/
structure Labels (cs : List Char) (labels : List (List Char)) : Prop where
  nonempty : labels ≠ []
  undotted : ∀ l ∈ labels, '.' ∉ l
  joined : ['.'].intercalate labels = cs

/-- neither the first label nor the last one is empty -/
def EndsFilled (labels : List (List Char)) : Prop := labels.head? ≠ some [] ∧ labels.getLast? ≠ some []

theorem EndsFilled.of_filled (h : ∀ l ∈ labels, l ≠ []) : EndsFilled labels :=
  ⟨fun hhead => h [] (List.mem_of_head? hhead) rfl, fun hlast => h [] (List.mem_of_getLast? hlast) rfl⟩

/-- a text has one list of labels: the runs that the cutting at dots gives -/
theorem labels_iff : Labels cs labels ↔ labels = cs.splitOnP (· = '.') := by
  have hcut : cs.splitOnP (· = '.') = cs.splitOn '.' := by
    rw [List.splitOn_eq_splitOnP]
    rfl
  constructor
  · rintro ⟨hne, hdots, rfl⟩
    rw [hcut, List.splitOn_intercalate '.' hdots hne]
  · rintro rfl
    refine ⟨List.splitOnP_ne_nil _ _, fun l hl hdot => ?_, by rw [hcut, List.intercalate_splitOn]⟩
    exact absurd (Text.false_of_mem_splitOnP hl '.' hdot) (by decide)

theorem exists_labels (cs : List Char) : ∃ labels, Labels cs labels := ⟨_, labels_iff.2 rfl⟩

theorem Labels.unique (h : Labels cs labels) (h' : Labels cs labels') : labels = labels' :=
  (labels_iff.1 h).trans (labels_iff.1 h').symm

theorem isHost_iff : isHost cs = true ↔ ∃ labels, Labels cs labels ∧ 2 ≤ labels.length ∧ ∀ l ∈ labels, l ≠ [] := by
  simp only [isHost, labels_iff, exists_eq_left, Bool.and_eq_true, decide_eq_true_eq, List.all_eq_true]
  rfl

theorem joined_labels (hseveral : 2 ≤ labels.length) (hdots : ∀ l ∈ labels, '.' ∉ l) :
    Labels (['.'].intercalate labels) labels :=
  ⟨List.ne_nil_of_length_pos (Nat.lt_of_lt_of_le Nat.two_pos hseveral), hdots, rfl⟩

theorem Labels.cons (h : Labels rest labels) (hl : '.' ∉ l) : Labels (l ++ '.' :: rest) (l :: labels) := by
  obtain ⟨l', labels, rfl⟩ := List.exists_cons_of_ne_nil h.nonempty
  refine ⟨List.cons_ne_nil _ _, List.forall_mem_cons.2 ⟨hl, h.undotted⟩, ?_⟩
  rw [List.intercalate_cons_cons, h.joined, List.append_assoc, List.singleton_append]

theorem Labels.uncons {l' : List Char} (h : Labels cs (l :: l' :: labels)) :
    cs = l ++ '.' :: ['.'].intercalate (l' :: labels) ∧ '.' ∉ l ∧
      Labels (['.'].intercalate (l' :: labels)) (l' :: labels) := by
  obtain ⟨hl, hrest⟩ := List.forall_mem_cons.1 h.undotted
  refine ⟨?_, hl, List.cons_ne_nil _ _, hrest, rfl⟩
  rw [← h.joined, List.intercalate_cons_cons, List.append_assoc, List.singleton_append]

/-- the last label is empty in an empty text and in one that ends with a dot -/
theorem Labels.getLast?_iff (h : Labels cs labels) : labels.getLast? = some [] ↔ cs = [] ∨ cs.getLast? = some '.' := by
  induction labels generalizing cs with
  | nil => exact absurd rfl h.nonempty
  | cons l labels ih =>
    cases labels with
    | nil =>
      obtain rfl : l = cs := by simpa [List.intercalate_singleton] using h.joined
      have hdot : l.getLast? ≠ some '.' := fun hlast => h.undotted l List.mem_cons_self (List.mem_of_getLast? hlast)
      simp [hdot]
    | cons l' labels =>
      obtain ⟨rfl, -, hrest⟩ := h.uncons
      rw [List.getLast?_cons_cons, ih hrest]
      cases ['.'].intercalate (l' :: labels) <;> simp [List.getLast?_append]

/-- a domain is cut at its first dot: an empty label between two others is passed over -/
theorem isDomain_iff : isDomain cs = true ↔ ∃ labels, Labels cs labels ∧ 2 ≤ labels.length ∧ EndsFilled labels := by
  constructor
  · intro h
    rw [isDomain] at h
    split at h
    · rename_i host rest hcut
      obtain ⟨rfl, hhost⟩ := Text.cutAt_singleton_iff.1 hcut
      simp only [Bool.and_eq_true, decide_eq_true_eq, ne_eq] at h
      obtain ⟨⟨hfirst, hrest⟩, hlast⟩ := h
      obtain ⟨labels, hlabels⟩ := exists_labels rest
      obtain ⟨l, labels, rfl⟩ := List.exists_cons_of_ne_nil hlabels.nonempty
      refine ⟨host :: l :: labels, hlabels.cons hhost, by simp, by simpa using hfirst, ?_⟩
      rw [List.getLast?_cons_cons, ne_eq, hlabels.getLast?_iff]
      exact not_or.2 ⟨hrest, hlast⟩
    · cases h
  · rintro ⟨labels, hlabels, hseveral, hfirst, hlast⟩
    match labels, hseveral with
    | l :: l' :: labels, _ =>
      obtain ⟨rfl, hl, hrest⟩ := hlabels.uncons
      rw [List.getLast?_cons_cons, ne_eq, hrest.getLast?_iff, not_or] at hlast
      rw [isDomain, Text.cutAt_singleton_iff.2 ⟨rfl, hl⟩]
      simpa [hlast] using hfirst

/-! ## Email addresses -/

def Spaceless (cs : List Char) : Prop := ∀ c ∈ cs, Text.isBlankChar c = false

/-- a name, one mark, and a domain of two labels or more -/
structure Mail (cs name : List Char) (labels : List (List Char)) : Prop where
  spaceless : Spaceless cs
  oneMark : cs.count '@' = 1
  text : cs = name ++ '@' :: ['.'].intercalate labels
  named : name ≠ []
  several : 2 ≤ labels.length
  undotted : ∀ l ∈ labels, '.' ∉ l

theorem spaceless_iff : (!cs.any Text.isBlankChar) = true ↔ Spaceless cs := by
  simp [Spaceless]

instance : DecidablePred Spaceless := fun _ => decidable_of_iff _ spaceless_iff

theorem count_mark : (name ++ '@' :: domain).count '@' = 1 ↔ '@' ∉ name ∧ '@' ∉ domain := by
  rw [List.count_append, List.count_cons_self, ← List.count_eq_zero, ← List.count_eq_zero]
  omega

theorem Mail.cut (h : Mail cs name labels) :
    Text.cutAt ['@'] cs = some (name, ['.'].intercalate labels) ∧ '@' ∉ ['.'].intercalate labels := by
  obtain ⟨hname, hdomain⟩ := count_mark.1 (h.text ▸ h.oneMark)
  exact ⟨Text.cutAt_singleton_iff.2 ⟨h.text, hname⟩, hdomain⟩

theorem Mail.divided (h : Mail cs name labels) : Labels (['.'].intercalate labels) labels :=
  joined_labels h.several h.undotted

theorem Mail.unique (h : Mail cs name labels) (h' : Mail cs name' labels') : labels = labels' := by
  obtain ⟨-, hdomain⟩ := Prod.mk.inj (Option.some.inj (h.cut.1.symm.trans h'.cut.1))
  exact h.divided.unique (hdomain ▸ h'.divided)

theorem isEmail_iff : isEmail cs = true ↔ ∃ name labels, Mail cs name labels ∧ EndsFilled labels := by
  rw [isEmail, Bool.and_eq_true, spaceless_iff]
  constructor
  · rintro ⟨hspaceless, h⟩
    split at h
    · rename_i name domain hcut
      obtain ⟨rfl, hname⟩ := Text.cutAt_singleton_iff.1 hcut
      simp only [Bool.and_eq_true, decide_eq_true_eq, ne_eq, Bool.not_eq_true', List.contains_eq_mem,
        decide_eq_false_iff_not] at h
      obtain ⟨⟨hnamed, hdomain⟩, hshape⟩ := h
      obtain ⟨labels, hlabels, hseveral, hfilled⟩ := isDomain_iff.1 hshape
      refine ⟨name, labels, ?_, hfilled⟩
      exact ⟨hspaceless, count_mark.2 ⟨hname, hdomain⟩, by rw [hlabels.joined], hnamed, hseveral, hlabels.undotted⟩
    · cases h
  · rintro ⟨name, labels, hmail, hfilled⟩
    obtain ⟨hcut, hdomain⟩ := hmail.cut
    have hshape := isDomain_iff.2 ⟨labels, hmail.divided, hmail.several, hfilled⟩
    refine ⟨hmail.spaceless, ?_⟩
    simp [hcut, hshape, hmail.named, hdomain]

/-! ## Links -/

/-- an ASCII letter, an ASCII digit, or a plus -/
def SchemeChar (c : Char) : Prop := ('a' ≤ c ∧ c ≤ 'z') ∨ ('A' ≤ c ∧ c ≤ 'Z') ∨ ('0' ≤ c ∧ c ≤ '9') ∨ c = '+'

instance : DecidablePred SchemeChar := fun _ => inferInstanceAs (Decidable (_ ∨ _))

/-- a scheme, its mark, and something behind it -/
structure SchemeLink (cs scheme rest : List Char) : Prop where
  text : cs = scheme ++ [':', '/', '/'] ++ rest
  named : scheme ≠ []
  plain : ∀ c ∈ scheme, SchemeChar c
  leads : rest ≠ []

/-- a host of two labels or more, none of them empty, with nothing behind it or a tail that a slash, a question mark or
a hash opens -/
structure HostLink (cs : List Char) (labels : List (List Char)) (tail : List Char) : Prop where
  text : cs = ['.'].intercalate labels ++ tail
  several : 2 ≤ labels.length
  filled : ∀ l ∈ labels, l ≠ []
  plain : ∀ l ∈ labels, ∀ c ∈ l, c ≠ '.' ∧ c ≠ '/' ∧ c ≠ '?' ∧ c ≠ '#'
  opened : ∀ c ∈ tail.head?, c = '/' ∨ c = '?' ∨ c = '#'

theorem isSchemeChar_iff {c : Char} : isSchemeChar c = true ↔ SchemeChar c := by
  have hupper : c.isUpper = true ↔ 'A' ≤ c ∧ c ≤ 'Z' := decide_eq_true_iff
  have hlower : c.isLower = true ↔ 'a' ≤ c ∧ c ≤ 'z' :=
    Bool.and_eq_true_iff.trans (and_congr decide_eq_true_iff decide_eq_true_iff)
  have hdigit : c.isDigit = true ↔ '0' ≤ c ∧ c ≤ '9' :=
    Bool.and_eq_true_iff.trans (and_congr decide_eq_true_iff decide_eq_true_iff)
  have hclasses : isSchemeChar c = (c.isUpper || c.isLower || c.isDigit || decide (c = '+')) := rfl
  rw [hclasses, SchemeChar, Bool.or_eq_true, Bool.or_eq_true, Bool.or_eq_true, hupper, hlower, hdigit,
    decide_eq_true_eq, or_assoc, or_assoc, or_left_comm]

theorem endsHost_iff {c : Char} : endsHost c = true ↔ c = '/' ∨ c = '?' ∨ c = '#' := by
  simp [endsHost, or_assoc]

theorem SchemeLink.cut (h : SchemeLink cs scheme rest) : Text.cutAt [':', '/', '/'] cs = some (scheme, rest) := by
  have hcolon : ':' ∉ scheme := fun hmem => absurd (h.plain ':' hmem) (by decide)
  rw [h.text]
  exact Text.cutAt_append hcolon

theorem takeWhile_host {host : List Char} (hhost : ∀ c ∈ host, endsHost c = false)
    (htail : ∀ c ∈ tail.head?, endsHost c = true) :
    (host ++ tail).takeWhile (fun c => !endsHost c) = host := by
  rw [List.takeWhile_append_of_pos fun c hc => by rw [hhost c hc]; rfl]
  cases tail with
  | nil => simp
  | cons c tail => simp [htail c rfl]

theorem mem_joined_iff {c : Char} (hc : c ≠ '.') : c ∈ ['.'].intercalate labels ↔ ∃ l ∈ labels, c ∈ l := by
  induction labels with
  | nil => simp
  | cons l labels ih =>
    cases labels with
    | nil => simp [List.intercalate_singleton]
    | cons l' labels =>
      rw [List.intercalate_cons_cons, List.mem_append, List.mem_append, ih]
      simp [hc]

theorem HostLink.divided (h : HostLink cs labels tail) : Labels (['.'].intercalate labels) labels :=
  joined_labels h.several fun l hl hdot => (h.plain l hl '.' hdot).1 rfl

theorem HostLink.host (h : HostLink cs labels tail) :
    cs.takeWhile (fun c => !endsHost c) = ['.'].intercalate labels := by
  rw [h.text]
  refine takeWhile_host (fun c hc => ?_) fun c hc => endsHost_iff.2 (h.opened c hc)
  by_cases hdot : c = '.'
  · subst hdot
    decide
  · obtain ⟨l, hl, hcl⟩ := (mem_joined_iff hdot).1 hc
    obtain ⟨-, hslash, hquestion, hhash⟩ := h.plain l hl c hcl
    simp [endsHost, hslash, hquestion, hhash]

/-- the host of a text, and the rest of it as the tail -/
theorem isHost_takeWhile_iff :
    isHost (cs.takeWhile fun c => !endsHost c) = true ↔ ∃ labels tail, HostLink cs labels tail := by
  rw [isHost_iff]
  constructor
  · rintro ⟨labels, hlabels, hseveral, hfilled⟩
    refine ⟨labels, cs.dropWhile fun c => !endsHost c, ?_, hseveral, hfilled, fun l hl c hc => ?_, fun c hc => ?_⟩
    · rw [hlabels.joined, List.takeWhile_append_dropWhile]
    · have hdot : c ≠ '.' := fun hdot => hlabels.undotted l hl (hdot ▸ hc)
      have hmem : c ∈ cs.takeWhile fun c => !endsHost c := hlabels.joined ▸ (mem_joined_iff hdot).2 ⟨l, hl, hc⟩
      have hplain : ¬ endsHost c = true := by
        simpa using List.all_eq_true.1 List.all_takeWhile c hmem
      rw [endsHost_iff, not_or, not_or] at hplain
      exact ⟨hdot, hplain⟩
    · have hfirst := List.head?_dropWhile_not (fun c => !endsHost c) cs
      rw [Option.mem_def.1 hc] at hfirst
      exact endsHost_iff.1 (by simpa using hfirst)
  · rintro ⟨labels, tail, hlink⟩
    exact ⟨labels, hlink.host ▸ hlink.divided, hlink.several, hlink.filled⟩

/-- a host has a dot, and a scheme has none -/
theorem HostLink.not_schemeLink (h : HostLink cs labels tail) : ¬ SchemeLink cs scheme rest := by
  intro hscheme
  have hplain : ∀ c ∈ scheme ++ [':'], endsHost c = false ∧ c ≠ '.' := by
    intro c hc
    rcases List.mem_append.1 hc with hc | hc
    · have hchar : SchemeChar c := hscheme.plain c hc
      refine ⟨Bool.eq_false_iff.2 fun hends => ?_, fun hdot => absurd (hdot ▸ hchar) (by decide)⟩
      rcases endsHost_iff.1 hends with rfl | rfl | rfl <;> exact absurd hchar (by decide)
    · obtain rfl := List.mem_singleton.1 hc
      decide
  have hhost : ['.'].intercalate labels = scheme ++ [':'] := by
    have htext : cs = (scheme ++ [':']) ++ '/' :: '/' :: rest := by rw [hscheme.text]; simp
    rw [← h.host, htext]
    exact takeWhile_host (fun c hc => (hplain c hc).1) (by simp [endsHost])
  have hdot : '.' ∈ ['.'].intercalate labels := by
    match labels, h.several with
    | l :: l' :: labels, _ =>
      rw [List.intercalate_cons_cons]
      simp
  exact (hplain '.' (hhost ▸ hdot)).2 rfl

/-- a scheme is looked for first, by its mark, and a host only in a text without the mark -/
theorem isLink_iff : isLink cs = true ↔ Spaceless cs ∧ ((∃ scheme rest, SchemeLink cs scheme rest) ∨
    ((∃ labels tail, HostLink cs labels tail) ∧ ¬ [':', '/', '/'] <:+: cs)) := by
  rw [isLink, Bool.and_eq_true, spaceless_iff]
  refine and_congr_right fun _ => ?_
  cases hcut : Text.cutAt [':', '/', '/'] cs with
  | none =>
    have hmark : ¬ [':', '/', '/'] <:+: cs := Text.cutAt_eq_none_iff.1 hcut
    have hscheme : ¬ ∃ scheme rest, SchemeLink cs scheme rest := by
      rintro ⟨scheme, rest, hlink⟩
      rw [hlink.cut] at hcut
      cases hcut
    simp only [isHost_takeWhile_iff, hscheme, hmark, false_or, not_false_eq_true, and_true]
  | some cut =>
    obtain ⟨scheme, rest⟩ := cut
    have htext : cs = scheme ++ [':', '/', '/'] ++ rest := Text.append_of_cutAt hcut
    have hmark : [':', '/', '/'] <:+: cs := ⟨scheme, rest, htext.symm⟩
    simp only [hmark, not_true_eq_false, and_false, or_false, Bool.and_eq_true, decide_eq_true_eq, List.all_eq_true,
      isSchemeChar_iff]
    constructor
    · rintro ⟨⟨hnamed, hplain⟩, hleads⟩
      exact ⟨scheme, rest, htext, hnamed, hplain, hleads⟩
    · rintro ⟨scheme', rest', hlink⟩
      obtain ⟨rfl, rfl⟩ := Prod.mk.inj (Option.some.inj (hlink.cut.symm.trans hcut))
      exact ⟨⟨hlink.named, hlink.plain⟩, hlink.leads⟩

end Address

/-! ## Inputs -/

namespace PropertyKind

open Address (EndsFilled HostLink Labels Mail SchemeChar SchemeLink Spaceless)

variable {raw : String}

theorem parse_email_iff (hraw : Text.isBlank raw = false) (t : PropertyTemplate) (ms : Members) :
    (email.parse raw t ms = .ok (.string (Text.trim raw)) ↔ Address.isEmail (Text.trim raw).toList = true) ∧
    (email.parse raw t ms = .error (.invalidEmail (Text.trim raw)) ↔
      ¬ email.parse raw t ms = .ok (.string (Text.trim raw))) := by
  simp only [parse, if_neg (Text.trim_ne_empty hraw)]
  split <;> simp_all

theorem parse_url_iff (hraw : Text.isBlank raw = false) (t : PropertyTemplate) (ms : Members) :
    (url.parse raw t ms = .ok (.string (Text.trim raw)) ↔ Address.isLink (Text.trim raw).toList = true) ∧
    (url.parse raw t ms = .error (.invalidUrl (Text.trim raw)) ↔
      ¬ url.parse raw t ms = .ok (.string (Text.trim raw))) := by
  simp only [parse, if_neg (Text.trim_ne_empty hraw)]
  split <;> simp_all

/-- **Email addresses.** An input that is not blank is stored trimmed if its trimmed text is an address whose first and
last label are not empty, and is refused with that text otherwise. This is what labels that are all filled would be
stored for, exactly if no label between the two is empty. -/
theorem email_accepted_iff (hraw : Text.isBlank raw = false) (t : PropertyTemplate) (ms : Members) :
    (email.parse raw t ms = .ok (.string (Text.trim raw)) ↔
      ∃ name labels, Mail (Text.trim raw).toList name labels ∧ EndsFilled labels) ∧
    (email.parse raw t ms = .error (.invalidEmail (Text.trim raw)) ↔
      ¬ email.parse raw t ms = .ok (.string (Text.trim raw))) ∧
    ((email.parse raw t ms = .ok (.string (Text.trim raw)) ↔
        ∃ name labels, Mail (Text.trim raw).toList name labels ∧ ∀ l ∈ labels, l ≠ []) ↔
      ∀ name labels, Mail (Text.trim raw).toList name labels → EndsFilled labels → ∀ l ∈ labels, l ≠ []) := by
  obtain ⟨haccepted, hrefused⟩ := parse_email_iff hraw t ms
  rw [Address.isEmail_iff] at haccepted
  refine ⟨haccepted, hrefused, ?_⟩
  rw [haccepted]
  constructor
  · intro hsame name labels hmail hends
    obtain ⟨name', labels', hmail', hfilled⟩ := hsame.1 ⟨name, labels, hmail, hends⟩
    exact hmail.unique hmail' ▸ hfilled
  · intro hfilled
    constructor
    · rintro ⟨name, labels, hmail, hends⟩
      exact ⟨name, labels, hmail, hfilled name labels hmail hends⟩
    · rintro ⟨name, labels, hmail, hall⟩
      exact ⟨name, labels, hmail, .of_filled hall⟩

def contact (tag : String) : PropertyTemplate := ⟨"p", "Contact", tag, []⟩

theorem padded_address_stored : Text.isBlank "\u2003ann+x@mail.example.co\n" = false ∧
    email.parse "\u2003ann+x@mail.example.co\n" (contact "email") .empty = .ok (.string "ann+x@mail.example.co") := by
  have hraw : Text.isBlank "\u2003ann+x@mail.example.co\n" = false := by decide
  have hmail : Mail (Text.trim "\u2003ann+x@mail.example.co\n").toList "ann+x".toList
      ["mail".toList, "example".toList, "co".toList] :=
    ⟨by decide, by decide, by decide, by decide, by decide, by decide⟩
  have haccepted := (email_accepted_iff hraw (contact "email") .empty).1
  exact ⟨hraw, haccepted.2 ⟨_, _, hmail, by decide, by decide⟩⟩

/-- an address with an empty label between two others is stored -/
theorem empty_label_accepted : Text.isBlank "a@b..co" = false ∧
    email.parse "a@b..co" (contact "email") .empty = .ok (.string "a@b..co") ∧
    Mail (Text.trim "a@b..co").toList ['a'] [['b'], [], ['c', 'o']] ∧
    ¬ ∃ name labels, Mail (Text.trim "a@b..co").toList name labels ∧ ∀ l ∈ labels, l ≠ [] := by
  have hmail : Mail (Text.trim "a@b..co").toList ['a'] [['b'], [], ['c', 'o']] :=
    ⟨by decide, by decide, by decide, by decide, by decide, by decide⟩
  refine ⟨by decide, by decide, hmail, ?_⟩
  rintro ⟨name, labels, hmail', hfilled⟩
  obtain rfl := hmail.unique hmail'
  exact hfilled [] (by decide) rfl

/-- **Links.** An input that is not blank is stored trimmed if its trimmed text holds no white space and is a scheme
with something behind it, or a host with any tail in a text without the mark of a scheme; it is refused with that text
otherwise. A host with any tail would be stored as well, exactly if no such text holds the mark. -/
theorem link_accepted_iff (hraw : Text.isBlank raw = false) (t : PropertyTemplate) (ms : Members) :
    (url.parse raw t ms = .ok (.string (Text.trim raw)) ↔ Spaceless (Text.trim raw).toList ∧
      ((∃ scheme rest, SchemeLink (Text.trim raw).toList scheme rest) ∨
        ((∃ labels tail, HostLink (Text.trim raw).toList labels tail) ∧
          ¬ [':', '/', '/'] <:+: (Text.trim raw).toList))) ∧
    (url.parse raw t ms = .error (.invalidUrl (Text.trim raw)) ↔ ¬ url.parse raw t ms = .ok (.string (Text.trim raw))) ∧
    ((url.parse raw t ms = .ok (.string (Text.trim raw)) ↔ Spaceless (Text.trim raw).toList ∧
        ((∃ scheme rest, SchemeLink (Text.trim raw).toList scheme rest) ∨
          ∃ labels tail, HostLink (Text.trim raw).toList labels tail)) ↔
      ∀ labels tail, Spaceless (Text.trim raw).toList → HostLink (Text.trim raw).toList labels tail →
        ¬ [':', '/', '/'] <:+: (Text.trim raw).toList) := by
  obtain ⟨haccepted, hrefused⟩ := parse_url_iff hraw t ms
  rw [Address.isLink_iff] at haccepted
  refine ⟨haccepted, hrefused, ?_⟩
  rw [haccepted]
  constructor
  · intro hsame labels tail hspaceless hhost
    obtain ⟨-, ⟨scheme, rest, hscheme⟩ | ⟨-, hmark⟩⟩ := hsame.2 ⟨hspaceless, .inr ⟨labels, tail, hhost⟩⟩
    · exact absurd hscheme hhost.not_schemeLink
    · exact hmark
  · intro hmark
    refine and_congr_right fun hspaceless => or_congr_right ?_
    exact and_iff_left_of_imp fun ⟨labels, tail, hhost⟩ => hmark labels tail hspaceless hhost

theorem padded_links_stored : Text.isBlank " https://x.io/a " = false ∧ Text.isBlank "example.com:80?q=a.b" = false ∧
    url.parse " https://x.io/a " (contact "url") .empty = .ok (.string "https://x.io/a") ∧
    url.parse "example.com:80?q=a.b" (contact "url") .empty = .ok (.string "example.com:80?q=a.b") := by
  have hraw : Text.isBlank " https://x.io/a " = false := by decide
  have hraw' : Text.isBlank "example.com:80?q=a.b" = false := by decide
  have hscheme : SchemeLink (Text.trim " https://x.io/a ").toList "https".toList "x.io/a".toList :=
    ⟨by decide, by decide, by simp [SchemeChar], by decide⟩
  have hhost : HostLink (Text.trim "example.com:80?q=a.b").toList ["example".toList, "com:80".toList] "?q=a.b".toList :=
    ⟨by decide, by decide, by decide, by simp, by simp⟩
  refine ⟨hraw, hraw', (link_accepted_iff hraw (contact "url") .empty).1.2 ?_,
    (link_accepted_iff hraw' (contact "url") .empty).1.2 ?_⟩
  · exact ⟨by decide, .inl ⟨_, _, hscheme⟩⟩
  · exact ⟨by decide, .inr ⟨⟨_, _, hhost⟩, by decide⟩⟩

/-- a host is refused for a link in its tail -/
theorem link_with_link_refused : Text.isBlank "example.com/?next=http://x.io" = false ∧
    Spaceless (Text.trim "example.com/?next=http://x.io").toList ∧
    HostLink (Text.trim "example.com/?next=http://x.io").toList ["example".toList, "com".toList]
      "/?next=http://x.io".toList ∧
    url.parse "example.com/?next=http://x.io" (contact "url") .empty =
      .error (.invalidUrl "example.com/?next=http://x.io") := by
  have hhost : HostLink (Text.trim "example.com/?next=http://x.io").toList ["example".toList, "com".toList]
      "/?next=http://x.io".toList := ⟨by decide, by decide, by decide, by simp, by simp⟩
  exact ⟨by decide, by decide, hhost, by decide⟩

end PropertyKind

end Corkboard
