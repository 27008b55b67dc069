import Mathlib.Tactic.Common
import TextGrammar.Symbol

/-!
# Classes of characters

What the tables say about characters that the grammar language gives a meaning to. An identifier
character is never whitespace (`isWhitespace_eq_false_of_isIdentifierChar`), and none of the
delimiters is an identifier character or whitespace (`isIdentifierChar_of_mem_signs`).
-/

namespace TextGrammar

namespace Unicode

theorem RangeTable.exists_mem_of_contains {table : RangeTable} {n : Nat}
    (h : table.contains n = true) : ∃ range ∈ table, range.1 ≤ n ∧ n ≤ range.2 := by
  induction table with
  | nil => simp [RangeTable.contains] at h
  | cons range rest ih =>
    obtain ⟨first, last⟩ := range
    rw [RangeTable.contains] at h
    split_ifs at h with hlow hhigh
    · exact ⟨(first, last), List.mem_cons_self, by simp only; omega, hhigh⟩
    · obtain ⟨range, hmem, hrange⟩ := ih h
      exact ⟨range, List.mem_cons_of_mem _ hmem, hrange⟩

/-- A property of all code points in the ranges of a table holds of all it contains. -/
theorem RangeTable.of_contains {table : RangeTable} {p : Nat → Prop}
    (hall : ∀ range ∈ table, ∀ k < range.2 - range.1 + 1, p (range.1 + k)) {n : Nat}
    (h : table.contains n = true) : p n := by
  obtain ⟨range, hmem, hlow, hhigh⟩ := exists_mem_of_contains h
  have hp := hall range hmem (n - range.1) (by omega)
  rwa [Nat.add_sub_cancel' hlow] at hp

/-- No code point is both whitespace and alphabetic. -/
theorem not_alphabetic_of_whitespace {n : Nat} (h : whitespaceRanges.contains n = true) :
    alphabeticRanges.contains n = false :=
  RangeTable.of_contains (p := fun n => alphabeticRanges.contains n = false)
    (by decide +kernel) h

/-- No digit and no `_` is whitespace. -/
theorem not_digit_of_whitespace {n : Nat} (h : whitespaceRanges.contains n = true) :
    ¬(48 ≤ n ∧ n ≤ 57) ∧ n ≠ 95 :=
  RangeTable.of_contains (p := fun n => ¬(48 ≤ n ∧ n ≤ 57) ∧ n ≠ 95) (by decide +kernel) h

end Unicode

open Unicode

theorem toNat_of_isDigit {c : Char} (h : c.isDigit = true) : 48 ≤ c.toNat ∧ c.toNat ≤ 57 := by
  simp only [Char.isDigit, Bool.and_eq_true, decide_eq_true_eq] at h
  exact ⟨h.1, h.2⟩

/-- An identifier character is not whitespace. -/
theorem isWhitespace_eq_false_of_isIdentifierChar {c : Char} (h : isIdentifierChar c = true) :
    isWhitespace c = false := by
  by_contra hblank
  rw [Bool.not_eq_false] at hblank
  have halpha := not_alphabetic_of_whitespace hblank
  obtain ⟨hdigit, hunder⟩ := not_digit_of_whitespace hblank
  simp only [isIdentifierChar, isAlphabetic, halpha, Bool.false_or, Bool.or_eq_true,
    decide_eq_true_eq] at h
  rcases h with h | rfl
  · exact hdigit (toNat_of_isDigit h)
  · exact hunder rfl

/-- A character that is no identifier character differs from every one that is. -/
theorem ne_of_isIdentifierChar {c d : Char} (h : isIdentifierChar c = true)
    (hd : isIdentifierChar d = false) : c ≠ d := by
  apply ne_of_apply_ne isIdentifierChar
  rw [h, hd]
  exact Bool.noConfusion

/-- The characters that mean something in a source, or separate what does. -/
def signs : List Char :=
  ['$', '>', '{', '}', '=', '#', ';', '|', '(', ')', '[', ']', ' ', '\r', '\n']

theorem isIdentifierChar_of_mem_signs {c : Char} (h : c ∈ signs) : isIdentifierChar c = false := by
  have hnone : signs.all (!isIdentifierChar ·) = true := by decide +kernel
  simpa using List.all_eq_true.1 hnone c h

/-- A character that is not whitespace differs from every one that is. -/
theorem ne_of_isWhitespace {c d : Char} (h : isWhitespace c = true)
    (hd : isWhitespace d = false) : c ≠ d := by
  apply ne_of_apply_ne isWhitespace
  rw [h, hd]
  exact Bool.noConfusion

end TextGrammar
