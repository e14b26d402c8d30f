import Mathlib.Algebra.Group.Nat.Defs
import Mathlib.Data.List.Induction
import Mathlib.Data.List.TakeWhile
import ThreeAddress.Ty.Table

/-!
# The lexical grammar of type texts

What type texts are made of: blanks, identifiers, and the lengths of arrays. Each is given by rules, and
the functions that read it follow the rules.

## Main definitions

* `Text.Blanks`: runs of blanks.
* `TypeText.Identifier`, `TypeText.Numeral`, `TypeText.Length`: the rules.

## Main statements

* `Text.exists_trim_append`, `Text.trim_append`: a text is what remains of it, padded with blanks.
* `TypeText.isIdentifier_iff`: which texts are identifiers.
* `TypeText.extent?_eq_some_iff`: how the length of an array is read.
* `TypeText.array?_eq_some_iff`: how the inside of an array is split.
-/

namespace ThreeAddress

-- ════════════════════════
-- Blanks
-- ════════════════════════

namespace Text

variable {before text after : List Char}

/-- A run of blanks, which may be empty. -/
def Blanks (text : List Char) : Prop := ∀ c ∈ text, isBlank c

theorem trimLeft_append (hbefore : Blanks before) : trimLeft (before ++ text) = trimLeft text :=
  List.dropWhile_append_of_pos hbefore

theorem trimLeft_eq_nil (h : Blanks text) : trimLeft text = [] := by
  rw [trimLeft, List.dropWhile_eq_nil_iff]
  exact h

theorem trimRight_append (hafter : Blanks after) : trimRight (text ++ after) = trimRight text := by
  rw [trimRight, List.reverse_append, trimLeft_append, trimRight]
  exact fun c hmem => hafter c (List.mem_reverse.mp hmem)

/-- Blanks at the ends do not matter. -/
theorem trim_append (hbefore : Blanks before) (hafter : Blanks after) :
    trim (before ++ text ++ after) = trim text := by
  rw [trim, List.append_assoc, trimLeft_append hbefore, trimLeft, List.dropWhile_append]
  split
  · next hempty =>
    have hnil : trimLeft text = [] := List.isEmpty_iff.mp hempty
    rw [trim, hnil, ← trimLeft, trimLeft_eq_nil hafter]
  · exact trimRight_append hafter

theorem exists_trimLeft_append (text : List Char) :
    ∃ before, Blanks before ∧ text = before ++ trimLeft text :=
  ⟨text.takeWhile isBlank, fun _ hmem => List.mem_takeWhile_imp hmem,
    List.takeWhile_append_dropWhile.symm⟩

theorem exists_trimRight_append (text : List Char) :
    ∃ after, Blanks after ∧ text = trimRight text ++ after := by
  obtain ⟨before, hbefore, heq⟩ := exists_trimLeft_append text.reverse
  refine ⟨before.reverse, fun c hmem => hbefore c (List.mem_reverse.mp hmem), ?_⟩
  rw [trimRight, ← List.reverse_append, ← heq, List.reverse_reverse]

/-- A text is what remains of it, padded with blanks. -/
theorem exists_trim_append (text : List Char) :
    ∃ before after, Blanks before ∧ Blanks after ∧ text = before ++ trim text ++ after := by
  obtain ⟨before, hbefore, hleft⟩ := exists_trimLeft_append text
  obtain ⟨after, hafter, hright⟩ := exists_trimRight_append (trimLeft text)
  refine ⟨before, after, hbefore, hafter, ?_⟩
  rw [trim, List.append_assoc, ← hright, ← hleft]

theorem trim_trimRight (text : List Char) : trim (trimRight text) = trim text := by
  obtain ⟨after, hafter, heq⟩ := exists_trimRight_append text
  have htrim : trim ([] ++ trimRight text ++ after) = trim (trimRight text) :=
    trim_append (by simp [Blanks]) hafter
  rw [List.nil_append, ← heq] at htrim
  exact htrim.symm

theorem trimRight_append_singleton {c : Char} (hc : ¬isBlank c) (text : List Char) :
    trimRight (text ++ [c]) = text ++ [c] := by
  simp [trimRight, trimLeft, hc]

theorem trim_cons {c : Char} (hc : ¬isBlank c) (text : List Char) :
    trim (c :: text) = c :: trimRight text := by
  have hleft : trimLeft (c :: text) = c :: text := by simp [trimLeft, hc]
  rw [trim, hleft, trimRight, List.reverse_cons, trimLeft, List.dropWhile_append]
  split
  · next hempty =>
    have hnil : trimLeft text.reverse = [] := List.isEmpty_iff.mp hempty
    simp [trimRight, hnil, hc]
  · simp [trimRight, trimLeft]

/-- Nothing is dropped from a text without blanks. -/
theorem trim_eq_self (h : ∀ c ∈ text, ¬isBlank c) : trim text = text := by
  cases text with
  | nil => rfl
  | cons first rest =>
    rw [trim_cons (h first List.mem_cons_self)]
    obtain hnil | ⟨initial, last, rfl⟩ := List.eq_nil_or_concat rest
    · simp [hnil, trimRight, trimLeft]
    · rw [List.concat_eq_append, trimRight_append_singleton (h last (by simp))]

end Text

-- ════════════════════════
-- Identifiers and lengths
-- ════════════════════════

namespace TypeText

def IsLetter (c : Char) : Prop := ('a' ≤ c ∧ c ≤ 'z') ∨ ('A' ≤ c ∧ c ≤ 'Z') ∨ c = '_'

def IsDigit (c : Char) : Prop := '0' ≤ c ∧ c ≤ '9'

instance : DecidablePred IsLetter := fun _ => inferInstanceAs (Decidable (_ ∨ _ ∨ _))

instance : DecidablePred IsDigit := fun _ => inferInstanceAs (Decidable (_ ∧ _))

/-- Letters and digits, with a letter in front. -/
inductive Identifier : List Char → Prop
  | mk {first : Char} {rest : List Char} (hfirst : IsLetter first)
      (hrest : ∀ c ∈ rest, IsLetter c ∨ IsDigit c) : Identifier (first :: rest)

/-- One or more decimal digits, and their value. -/
inductive Numeral : List Char → Nat → Prop
  | digit {c : Char} (h : IsDigit c) : Numeral [c] (c.toNat - '0'.toNat)
  | snoc {digits : List Char} {value : Nat} {c : Char} (h : IsDigit c) :
      Numeral digits value → Numeral (digits ++ [c]) (10 * value + (c.toNat - '0'.toNat))

/-- The length of an array. A number has to fit 64 bits. -/
inductive Length : List Char → Extent → Prop
  | star : Length ['*'] .unsized
  | numeral {digits : List Char} {value : Nat} (hvalue : Numeral digits value)
      (hlt : value < 2 ^ 64) : Length digits (.sized value)
  | plus {digits : List Char} {value : Nat} (hvalue : Numeral digits value)
      (hlt : value < 2 ^ 64) : Length ('+' :: digits) (.sized value)

-- ════════════════════════
-- Characters, identifiers and numerals
-- ════════════════════════

theorem isDigit_iff {c : Char} : c.isDigit ↔ IsDigit c := by
  rw [Char.isDigit_iff_toNat]
  rfl

theorem isLetter_iff {c : Char} : (c.isAlpha || c = '_') = true ↔ IsLetter c := by
  have halpha : c.isAlpha = (c.isUpper || c.isLower) := rfl
  have hupper : c.isUpper = decide ('A' ≤ c ∧ c ≤ 'Z') := rfl
  have hlower : c.isLower = (decide ('a' ≤ c) && decide (c ≤ 'z')) := rfl
  simp only [halpha, hupper, hlower, Bool.or_eq_true, Bool.and_eq_true, decide_eq_true_eq, IsLetter]
  grind

theorem isIdentifier_iff {name : String} : isIdentifier name ↔ Identifier name.toList := by
  rw [isIdentifier]
  cases name.toList with
  | nil => exact ⟨nofun, nofun⟩
  | cons first rest =>
    have hrest : ∀ c : Char, (c.isAlphanum || c = '_') = true ↔ IsLetter c ∨ IsDigit c := by
      intro c
      rw [← isLetter_iff, ← isDigit_iff, Char.isAlphanum]
      grind
    simp only [Bool.and_eq_true, List.all_eq_true, isLetter_iff, hrest]
    exact ⟨fun h => .mk h.1 h.2, fun ⟨hfirst, hrest⟩ => ⟨hfirst, hrest⟩⟩

/-- The blanks of ASCII are the space and control characters. -/
theorem not_isBlank_of_le {c : Char} (h : '!' ≤ c) (h' : c ≤ '~') : ¬Text.isBlank c := by
  have hlower : 33 ≤ c.toNat := h
  have hupper : c.toNat ≤ 126 := h'
  simp only [Text.isBlank, Text.blankRanges, List.any_eq_true, Bool.and_eq_true, decide_eq_true_eq,
    not_exists, not_and]
  intro range hmem hfirst hlast
  have hranges : ∀ range ∈ Text.blankRanges, range.2 < 33 ∨ 126 < range.1 := by decide
  have hrange := hranges range hmem
  omega

theorem IsDigit.not_isBlank {c : Char} (h : IsDigit c) : ¬Text.isBlank c :=
  not_isBlank_of_le (Nat.le_trans (by decide) h.1) (Nat.le_trans h.2 (by decide))

theorem IsLetter.not_isBlank {c : Char} (h : IsLetter c) : ¬Text.isBlank c := by
  obtain h | h | rfl := h
  · exact not_isBlank_of_le (Nat.le_trans (by decide) h.1) (Nat.le_trans h.2 (by decide))
  · exact not_isBlank_of_le (Nat.le_trans (by decide) h.1) (Nat.le_trans h.2 (by decide))
  · decide

theorem Identifier.not_isBlank {text : List Char} (h : Identifier text) :
    ∀ c ∈ text, ¬Text.isBlank c := by
  obtain ⟨hfirst, hrest⟩ := h
  intro c hmem
  rcases List.mem_cons.mp hmem with rfl | hmem
  · exact hfirst.not_isBlank
  · exact (hrest c hmem).elim IsLetter.not_isBlank IsDigit.not_isBlank

theorem Numeral.isDigit {digits : List Char} {value : Nat} (h : Numeral digits value) :
    ∀ c ∈ digits, IsDigit c := by
  induction h with
  | digit h => simpa using h
  | snoc h _ ih =>
    intro c hmem
    rcases List.mem_append.mp hmem with hmem | hmem
    · exact ih c hmem
    · rwa [List.mem_singleton.mp hmem]

theorem Numeral.ne_nil {digits : List Char} {value : Nat} (h : Numeral digits value) :
    digits ≠ [] := by
  cases h <;> simp

/-- The value of a numeral is read from the left. -/
theorem Numeral.value_eq {digits : List Char} {value : Nat} (h : Numeral digits value) :
    Nat.ofDigitChars 10 digits 0 = value := by
  induction h with
  | digit h => simp [Nat.ofDigitChars_cons, Nat.ofDigitChars_nil]
  | snoc h _ ih => rw [Nat.ofDigitChars_append, ih, Nat.ofDigitChars_cons, Nat.ofDigitChars_nil]

theorem numeral_ofDigitChars {digits : List Char} (hne : digits ≠ [])
    (h : ∀ c ∈ digits, IsDigit c) : Numeral digits (Nat.ofDigitChars 10 digits 0) := by
  induction digits using List.reverseRecOn with
  | nil => exact absurd rfl hne
  | append_singleton digits c ih =>
    have hc : IsDigit c := h c (by simp)
    rw [Nat.ofDigitChars_append, Nat.ofDigitChars_cons, Nat.ofDigitChars_nil]
    by_cases hnil : digits = []
    · simpa [hnil, Nat.ofDigitChars_nil] using Numeral.digit hc
    · exact .snoc hc (ih hnil fun c hmem => h c (by simp [hmem]))

/-- The digits of a numeral are read if and only if their value fits. -/
theorem readWord?_eq_some_iff {text : List Char} {value : Nat} :
    Text.readWord? text = some value ↔ Numeral (Text.unsigned text) value ∧ value < 2 ^ 64 := by
  have hlimit : Text.wordLimit = 2 ^ 64 := rfl
  rw [Text.readWord?, ← hlimit]
  constructor
  · intro h
    by_cases hdigits : (Text.unsigned text).isEmpty || !(Text.unsigned text).all Char.isDigit
    · simp [hdigits] at h
    · simp only [hdigits, Bool.false_eq_true, if_false, Option.ite_none_right_eq_some,
        Option.some.injEq] at h
      simp only [Bool.or_eq_true, Bool.not_eq_true', not_or, Bool.not_eq_false, List.all_eq_true,
        List.isEmpty_iff, isDigit_iff] at hdigits
      obtain ⟨hlt, rfl⟩ := h
      exact ⟨numeral_ofDigitChars hdigits.1 hdigits.2, hlt⟩
  · rintro ⟨hnumeral, hlt⟩
    have hall : (Text.unsigned text).all Char.isDigit :=
      List.all_eq_true.mpr fun c hmem => isDigit_iff.mpr (hnumeral.isDigit c hmem)
    simp [hnumeral.ne_nil, hall, hnumeral.value_eq, hlt]

theorem unsigned_eq_of_isDigit {digits : List Char} (h : ∀ c ∈ digits, IsDigit c) :
    Text.unsigned digits = digits := by
  unfold Text.unsigned
  split
  · next digits =>
    exact absurd (h '+' List.mem_cons_self) (by decide)
  · rfl

/-- The length of an array is read from between blanks. -/
theorem extent?_eq_some_iff {text : List Char} {extent : Extent} :
    extent? text = some extent ↔ Length (Text.trim text) extent := by
  unfold extent?
  split
  · next htrim =>
    rw [htrim]
    constructor
    · rintro ⟨⟩
      exact .star
    · rintro (_ | ⟨hvalue, -⟩)
      · rfl
      · exact absurd (hvalue.isDigit '*' List.mem_cons_self) (by decide)
  · next hstar =>
    simp only [Option.map_eq_some_iff, readWord?_eq_some_iff]
    constructor
    · rintro ⟨value, ⟨hnumeral, hlt⟩, rfl⟩
      unfold Text.unsigned at hnumeral
      split at hnumeral
      · next hplus =>
        rw [hplus]
        exact .plus hnumeral hlt
      · exact .numeral hnumeral hlt
    · intro h
      generalize Text.trim text = length at h hstar
      cases h with
      | star => exact absurd rfl hstar
      | @numeral digits value hvalue hlt =>
        rw [unsigned_eq_of_isDigit hvalue.isDigit]
        exact ⟨value, ⟨hvalue, hlt⟩, rfl⟩
      | @plus digits value hvalue hlt => exact ⟨value, ⟨hvalue, hlt⟩, rfl⟩

theorem Length.mem_cases {length : List Char} {extent : Extent} (h : Length length extent) :
    ∀ c ∈ length, c = '*' ∨ c = '+' ∨ IsDigit c := by
  cases h with
  | star => simp
  | numeral hvalue hlt => exact fun c hmem => Or.inr (Or.inr (hvalue.isDigit c hmem))
  | plus hvalue hlt =>
    intro c hmem
    rcases List.mem_cons.mp hmem with rfl | hmem
    · exact Or.inr (Or.inl rfl)
    · exact Or.inr (Or.inr (hvalue.isDigit c hmem))

theorem Length.trim_eq {length : List Char} {extent : Extent} (h : Length length extent) :
    Text.trim length = length := by
  refine Text.trim_eq_self fun c hmem => ?_
  obtain rfl | rfl | hdigit := h.mem_cases c hmem
  · decide
  · decide
  · exact hdigit.not_isBlank

-- ════════════════════════
-- Arrays
-- ════════════════════════

theorem splitLast?_eq_none_iff {text : List Char} :
    splitLast? text = none ↔ ';' ∉ text := by
  induction text with
  | nil => simp [splitLast?]
  | cons c rest ih =>
    rw [splitLast?]
    cases hrest : splitLast? rest with
    | some parts => simp [← ih, hrest]
    | none =>
      have hmem := ih.mp hrest
      by_cases hc : c = ';' <;> simp [hc, hmem, eq_comm]

theorem eq_of_splitLast? {text front back : List Char}
    (h : splitLast? text = some (front, back)) : text = front ++ ';' :: back := by
  induction text generalizing front with
  | nil => cases h
  | cons c rest ih =>
    rw [splitLast?] at h
    cases hrest : splitLast? rest with
    | some parts =>
      rw [hrest] at h
      cases h
      rw [ih hrest, List.cons_append]
    | none =>
      rw [hrest] at h
      simp only [Option.ite_none_right_eq_some, Option.some.injEq, Prod.mk.injEq] at h
      obtain ⟨rfl, rfl, rfl⟩ := h
      rfl

/-- A text is split at a semicolon if no other one follows. -/
theorem splitLast?_append {front back : List Char} (hback : ';' ∉ back) :
    splitLast? (front ++ ';' :: back) = some (front, back) := by
  induction front with
  | nil => simp [splitLast?, splitLast?_eq_none_iff.mpr hback]
  | cons c rest ih => rw [List.cons_append, splitLast?, ih]

/-- The inside of an array is split into the text of its members and its length. -/
theorem array?_eq_some_iff {text member : List Char} {extent : Extent} :
    array? text = some (member, extent) ↔
      ∃ before length after, Text.Blanks before ∧ Length length extent ∧ Text.Blanks after ∧
        text = member ++ ';' :: (before ++ length ++ after) ++ [']'] := by
  rw [array?]
  constructor
  · intro h
    by_cases hlast : text.getLast? = some ']'
    · obtain ⟨inner, rfl⟩ := List.getLast?_eq_some_iff.mp hlast
      rw [if_pos hlast, List.dropLast_concat] at h
      cases hsplit : splitLast? inner with
      | none =>
        rw [hsplit] at h
        cases h
      | some parts =>
        rw [hsplit] at h
        obtain ⟨found, hextent, heq⟩ := Option.map_eq_some_iff.mp h
        cases heq
        obtain ⟨before, after, hbefore, hafter, hlength⟩ := Text.exists_trim_append parts.2
        refine ⟨before, _, after, hbefore, extent?_eq_some_iff.mp hextent, hafter, ?_⟩
        rw [← hlength, ← eq_of_splitLast? hsplit]
    · rw [if_neg hlast] at h
      cases h
  · rintro ⟨before, length, after, hbefore, hlength, hafter, rfl⟩
    have hback : ';' ∉ before ++ length ++ after := by
      intro hmem
      simp only [List.mem_append] at hmem
      obtain (hmem | hmem) | hmem := hmem
      · exact absurd (hbefore _ hmem) (by decide)
      · obtain h | h | h := hlength.mem_cases _ hmem <;> revert h <;> decide
      · exact absurd (hafter _ hmem) (by decide)
    have hextent : extent? (before ++ length ++ after) = some extent := by
      rw [extent?_eq_some_iff, Text.trim_append hbefore hafter, hlength.trim_eq]
      exact hlength
    rw [if_pos List.getLast?_concat, List.dropLast_concat, splitLast?_append hback]
    exact Option.map_eq_some_iff.mpr ⟨extent, hextent, rfl⟩

end TypeText

end ThreeAddress
