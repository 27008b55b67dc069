import Mathlib.Data.List.DropRight
import Mathlib.Data.List.Induction
import Mathlib.Data.List.TakeWhile
import Mathlib.Tactic.Common
import TextGrammar.Text.Basic

/-!
# Trimming and cutting texts

* The ends of a text: `Text.trim_eq_self` and the lemmas on whitespace in front of it and behind it.
* `Text.splitOn_cons_of_ne`: a character that separates nothing belongs to the first piece.
* `Text.splitFirst?_append_cons`: the first separator is found.
-/

namespace TextGrammar

namespace Text

open Unicode

/-! ## Trimming -/

theorem trimStart_cons_of_blank {c : Char} {text : Text} (h : isWhitespace c = true) :
    trimStart (c :: text) = trimStart text := by
  simp [trimStart, h]

theorem trimStart_eq_self {text : Text} (h : text.head?.any isWhitespace = false) :
    trimStart text = text := by
  cases text with
  | nil => rfl
  | cons c rest => simp_all [trimStart]

/-- What lies behind a character that is not whitespace stays when the beginning is trimmed. -/
theorem trimStart_append_cons {c : Char} (text rest : Text) (h : isWhitespace c = false) :
    trimStart (text ++ c :: rest) = trimStart text ++ c :: rest := by
  induction text with
  | nil => exact trimStart_eq_self (by simpa using h)
  | cons d text ih =>
    cases hd : isWhitespace d with
    | true =>
      rw [List.cons_append, trimStart_cons_of_blank hd, trimStart_cons_of_blank hd]
      exact ih
    | false =>
      rw [List.cons_append, trimStart_eq_self (by simpa using hd),
        trimStart_eq_self (by simpa using hd), List.cons_append]

theorem trimEnd_eq_rdropWhile (text : Text) : text.trimEnd = text.rdropWhile isWhitespace :=
  rfl

/-- What lies in front of a character that is not whitespace stays when the end is trimmed. -/
theorem trimEnd_append_cons {c : Char} (text rest : Text) (h : isWhitespace c = false) :
    trimEnd (text ++ c :: rest) = text ++ c :: trimEnd rest := by
  induction rest using List.reverseRecOn with
  | nil =>
    rw [trimEnd_eq_rdropWhile, List.rdropWhile_concat_neg isWhitespace text c (by simp [h])]
    rfl
  | append_singleton rest d ih =>
    rw [← List.cons_append, ← List.append_assoc]
    simp only [trimEnd_eq_rdropWhile, List.rdropWhile_concat] at ih ⊢
    split_ifs
    · exact ih
    · rw [List.append_assoc, List.cons_append]

theorem trimEnd_eq_self {text : Text} (h : text.getLast?.any isWhitespace = false) :
    trimEnd text = text := by
  rcases List.eq_nil_or_concat text with rfl | ⟨front, c, rfl⟩
  · rfl
  · have hc : isWhitespace c = false := by simpa using h
    rw [List.concat_eq_append, trimEnd_append_cons front [] hc]
    rfl

theorem trimEnd_append_blank {c : Char} (text : Text) (h : isWhitespace c = true) :
    trimEnd (text ++ [c]) = trimEnd text :=
  List.rdropWhile_concat_pos isWhitespace text c h

/-- A text without whitespace at its ends is not changed by trimming. -/
theorem trim_eq_self {text : Text} (hfirst : text.head?.any isWhitespace = false)
    (hlast : text.getLast?.any isWhitespace = false) : trim text = text := by
  rw [trim, trimStart_eq_self hfirst, trimEnd_eq_self hlast]

theorem trimEnd_cons {c : Char} (text : Text) :
    trimEnd (c :: text) =
      if isWhitespace c = true ∧ trimEnd text = [] then [] else c :: trimEnd text := by
  unfold trimEnd
  rw [List.reverse_cons, List.dropWhile_append]
  cases hrest : text.reverse.dropWhile isWhitespace with
  | nil => by_cases hc : isWhitespace c <;> simp [hc]
  | cons d tail => simp

/-- It makes no difference which end is trimmed first. -/
theorem trimStart_trimEnd (text : Text) : trimStart (trimEnd text) = trimEnd (trimStart text) := by
  induction text with
  | nil => rfl
  | cons c rest ih =>
    cases hc : isWhitespace c with
    | true =>
      rw [trimStart_cons_of_blank hc, ← ih, trimEnd_cons]
      split_ifs with hrest
      · rw [hrest.2]
      · exact trimStart_cons_of_blank hc
    | false =>
      have hstart : ∀ text : Text, trimStart (c :: text) = c :: text := fun text =>
        trimStart_eq_self (by simpa using hc)
      rw [hstart, trimEnd_cons, hc, if_neg (by simp), hstart]

theorem getLast?_trimEnd (text : Text) : (trimEnd text).getLast?.any isWhitespace = false := by
  rcases List.eq_nil_or_concat (trimEnd text) with hnil | ⟨front, c, hconcat⟩
  · rw [hnil]
    rfl
  · have hlast := List.rdropWhile_last_not isWhitespace text
    simp only [← trimEnd_eq_rdropWhile, hconcat] at hlast ⊢
    simpa using hlast (by simp)

theorem head?_trimStart (text : Text) : (trimStart text).head?.any isWhitespace = false := by
  have hhead := List.head?_dropWhile_not isWhitespace text
  unfold trimStart
  cases hdrop : (text.dropWhile isWhitespace).head? with
  | none => rfl
  | some c => simpa [hdrop] using hhead

/-- A trimmed text has no whitespace at its ends. -/
theorem ends_trim (text : Text) :
    (trim text).head?.any isWhitespace = false ∧ (trim text).getLast?.any isWhitespace = false := by
  constructor
  · rw [trim, ← trimStart_trimEnd]
    exact head?_trimStart _
  · exact getLast?_trimEnd _

@[simp]
theorem trim_trim (text : Text) : trim (trim text) = trim text :=
  trim_eq_self (ends_trim text).1 (ends_trim text).2

theorem trim_trimEnd (text : Text) : trim (trimEnd text) = trim text := by
  rw [trim, trimStart_trimEnd, ← trim, trimEnd_eq_self (ends_trim text).2]

theorem trim_trimStart (text : Text) : trim (trimStart text) = trim text := by
  rw [trim, trimStart_eq_self (head?_trimStart text), trim]

/-- Trimming takes nothing away but whitespace. -/
theorem mem_trim {c : Char} {text : Text} (h : isWhitespace c = false) (hc : c ∈ text) :
    c ∈ trim text := by
  obtain ⟨front, back, rfl⟩ := List.append_of_mem hc
  rw [trim, trimStart_append_cons _ _ h, trimEnd_append_cons _ _ h]
  simp

/-- What is left after trimming stands in the text as it was. -/
theorem trim_isInfix (text : Text) : text.trim <:+: text := by
  have hend : text.trimStart.trimEnd <+: text.trimStart :=
    List.rdropWhile_prefix isWhitespace _
  exact hend.isInfix.trans (List.dropWhile_suffix _).isInfix

theorem trim_sublist (text : Text) : (trim text).Sublist text :=
  text.trim_isInfix.sublist

/-! ## Splitting -/

theorem splitOn_cons_self (separator : Char) (text : Text) :
    (separator :: text).splitOn separator = [] :: text.splitOn separator := by
  rw [List.splitOn_cons_eq_if_modifyHead, if_pos (beq_self_eq_true separator)]

theorem splitOn_cons_of_ne {separator c : Char} (text : Text) (h : c ≠ separator) :
    (c :: text).splitOn separator = (text.splitOn separator).modifyHead (List.cons c) := by
  rw [List.splitOn_cons_eq_if_modifyHead, if_neg (by simpa using h)]

/-- Joining puts the separator in front of each piece but the first. -/
theorem intercalate_cons (separator piece : Text) (rest : List Text) :
    separator.intercalate (piece :: rest) = piece ++ rest.flatMap (separator ++ ·) := by
  induction rest generalizing piece with
  | nil => simp
  | cons next rest ih =>
    rw [List.intercalate_cons_cons, ih next, List.flatMap_cons]
    simp

/-- Joined pieces with more pieces behind them, each with its separator. -/
theorem intercalate_append_flatMap {α : Type} (separator : Text) {pieces : List Text}
    (hne : pieces ≠ []) (f : α → Text) (more : List α) :
    separator.intercalate pieces ++ more.flatMap (fun a => separator ++ f a) =
      separator.intercalate (pieces ++ more.map f) := by
  cases pieces with
  | nil => exact absurd rfl hne
  | cons piece rest =>
    rw [List.cons_append, intercalate_cons, intercalate_cons, List.flatMap_append,
      List.flatMap_map, List.append_assoc]

theorem not_mem_of_mem_splitOn {separator : Char} {text piece : Text}
    (h : piece ∈ text.splitOn separator) : separator ∉ piece := by
  induction text generalizing piece with
  | nil =>
    rw [List.mem_singleton.1 (show piece ∈ [[]] from h)]
    exact List.not_mem_nil
  | cons c rest ih =>
    by_cases hc : c = separator
    · rw [hc, splitOn_cons_self] at h
      rcases List.mem_cons.1 h with rfl | h
      · exact List.not_mem_nil
      · exact ih h
    · obtain ⟨first, others, hsplit⟩ :=
        List.exists_cons_of_ne_nil (List.splitOn_ne_nil separator rest)
      rw [splitOn_cons_of_ne _ hc, hsplit, List.modifyHead_cons] at h
      rw [hsplit] at ih
      rcases List.mem_cons.1 h with rfl | h
      · intro hmem
        rcases List.mem_cons.1 hmem with heq | hmem
        · exact hc heq.symm
        · exact ih List.mem_cons_self hmem
      · exact ih (List.mem_cons_of_mem _ h)

/-- Joining takes pieces of pieces to a piece of what is joined. -/
theorem intercalate_sublist (separator : Text) {pieces pieces' : List Text}
    (h : List.Forall₂ List.Sublist pieces pieces') :
    (separator.intercalate pieces).Sublist (separator.intercalate pieces') := by
  cases h with
  | nil => exact List.Sublist.refl _
  | cons hfirst hrest =>
    rw [intercalate_cons, intercalate_cons]
    refine hfirst.append ?_
    induction hrest with
    | nil => exact List.Sublist.refl _
    | cons hnext _ ih =>
      rw [List.flatMap_cons, List.flatMap_cons]
      exact (hnext.append_left separator).append ih

/-- Whitespace at the end of a text is whitespace at the end of its last piece. -/
theorem map_trimEnd_splitOn_trimEnd {separator : Char} (h : isWhitespace separator = false)
    (text : Text) :
    (text.trimEnd.splitOn separator).map trimEnd = (text.splitOn separator).map trimEnd := by
  induction text with
  | nil => rfl
  | cons c rest ih =>
    rw [trimEnd_cons]
    by_cases hc : c = separator
    · rw [hc, h, if_neg (by simp), splitOn_cons_self, splitOn_cons_self, List.map_cons,
        List.map_cons, ih]
    · obtain ⟨first, others, hsplit⟩ :=
        List.exists_cons_of_ne_nil (List.splitOn_ne_nil separator rest)
      obtain ⟨first', others', hsplit'⟩ :=
        List.exists_cons_of_ne_nil (List.splitOn_ne_nil separator (trimEnd rest))
      rw [hsplit, hsplit', List.map_cons, List.map_cons, List.cons.injEq] at ih
      split_ifs with hblank
      · rw [hblank.2] at hsplit'
        obtain ⟨rfl, rfl⟩ := List.cons.inj hsplit'
        rw [splitOn_cons_of_ne _ hc, hsplit, List.modifyHead_cons, List.map_cons, ← ih.2,
          trimEnd_cons first, ← ih.1, if_pos ⟨hblank.1, rfl⟩]
        rfl
      · rw [splitOn_cons_of_ne _ hc, splitOn_cons_of_ne _ hc, hsplit, hsplit',
          List.modifyHead_cons, List.modifyHead_cons, List.map_cons, List.map_cons, trimEnd_cons,
          trimEnd_cons, ih.1, ih.2]

theorem splitFirst?_append_cons {separator : Char} {before : Text} (after : Text)
    (h : separator ∉ before) :
    splitFirst? separator (before ++ separator :: after) = some (before, after) := by
  have hdrop : (before ++ separator :: after).dropWhile (· ≠ separator) = separator :: after := by
    rw [List.dropWhile_append_of_pos]
    · simp
    · intro c hc
      have hne : c ≠ separator := fun heq => h (heq ▸ hc)
      simp [hne]
  have htake : (before ++ separator :: after).takeWhile (· ≠ separator) = before := by
    rw [List.takeWhile_append_of_pos]
    · simp
    · intro c hc
      have hne : c ≠ separator := fun heq => h (heq ▸ hc)
      simp [hne]
  simp only [splitFirst?, hdrop, htake]

theorem splitFirst?_eq_none {separator : Char} {text : Text} (h : separator ∉ text) :
    splitFirst? separator text = none := by
  have hdrop : text.dropWhile (· ≠ separator) = [] := by
    rw [List.dropWhile_eq_nil_iff]
    intro c hc
    have hne : c ≠ separator := fun heq => h (heq ▸ hc)
    simpa using hne
  rw [splitFirst?, hdrop]

end Text

end TextGrammar
