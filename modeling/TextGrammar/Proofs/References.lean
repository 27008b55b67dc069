import TextGrammar.Production
import TextGrammar.Proofs.Symbols

/-!
# Reading what was written

A written reference is read back, whatever follows it, unless the plain form meets an identifier
character (`readSegments_writeReference`); any character but `$` and `>` is literal text
(`readSegments_cons_of_plain`).
-/

namespace TextGrammar

/-- Whether a text begins with an identifier character, which a name in front of it would take. -/
def beginsIdentifier (text : Text) : Bool :=
  text.head?.any isIdentifierChar

theorem takeWhile_identifier {identifier : Text} (rest : Text)
    (h : ∀ c ∈ identifier, isIdentifierChar c = true) (hrest : beginsIdentifier rest = false) :
    (identifier ++ rest).takeWhile isIdentifierChar = identifier := by
  rw [List.takeWhile_append_of_pos h]
  cases rest with
  | nil => simp
  | cons c rest =>
    have hc : isIdentifierChar c = false := by simpa [beginsIdentifier] using hrest
    simp [hc]

theorem dropWhile_identifier {identifier : Text} (rest : Text)
    (h : ∀ c ∈ identifier, isIdentifierChar c = true) (hrest : beginsIdentifier rest = false) :
    (identifier ++ rest).dropWhile isIdentifierChar = rest := by
  rw [List.dropWhile_append_of_pos h]
  cases rest with
  | nil => rfl
  | cons c rest =>
    have hc : isIdentifierChar c = false := by simpa [beginsIdentifier] using hrest
    simp [hc]

/-- A written reference is the reference its text begins with. -/
theorem readReference_writeReference {symbol : Symbol} {braced : Bool} {rest : Text}
    (hvalid : symbol.Valid) (hrest : braced = false → beginsIdentifier rest = false) :
    readReference (writeReference braced symbol ++ rest) = some (symbol, rest) := by
  obtain ⟨c, identifier, rfl, hall⟩ := hvalid.exists_identifier
  cases braced with
  | true =>
    have hclose : beginsIdentifier ('}' :: rest) = false := by
      have hbrace : isIdentifierChar '}' = false := isIdentifierChar_of_mem_signs (by decide)
      simp [beginsIdentifier, hbrace]
    have htake := takeWhile_identifier ('}' :: rest) hall hclose
    have hdrop := dropWhile_identifier ('}' :: rest) hall hclose
    have hform : writeReference true (Symbol.ofIdentifier (c :: identifier)) ++ rest =
        '$' :: '{' :: (c :: identifier ++ '}' :: rest) := by
      simp [writeReference, Symbol.identifier, Symbol.ofIdentifier]
    rw [hform]
    unfold readReference
    simp only [htake, hdrop]
  | false =>
    have htake := takeWhile_identifier rest hall (hrest rfl)
    have hdrop := dropWhile_identifier rest hall (hrest rfl)
    have hform : writeReference false (Symbol.ofIdentifier (c :: identifier)) ++ rest =
        '$' :: (c :: identifier ++ rest) := rfl
    have hbrace : c ≠ '{' :=
      ne_of_isIdentifierChar (hall c List.mem_cons_self)
        (isIdentifierChar_of_mem_signs (by decide))
    rw [hform]
    unfold readReference
    split
    · rename_i heq
      exact absurd (List.cons.inj (List.cons.inj heq).2).1 hbrace
    · rename_i heq
      rw [← (List.cons.inj heq).2]
      simp only [htake, hdrop]
    · rename_i hnot
      exact absurd rfl (hnot _)

theorem writeReference_eq_cons (braced : Bool) {symbol : Symbol} (h : symbol.Valid) :
    ∃ tail, writeReference braced symbol = '$' :: tail := by
  obtain ⟨c, identifier, rfl, -⟩ := h.exists_identifier
  cases braced
  · exact ⟨_, rfl⟩
  · exact ⟨_, rfl⟩

/-! ## What is read first -/

theorem readSegments_of_some {text after : Text} {segment : Segment}
    (h : readReferenceSegment text = some (segment, after)) :
    readSegments text = segment :: readSegments after := by
  cases text with
  | nil => simp [readReferenceSegment, readReference] at h
  | cons c rest =>
    rw [readSegments]
    split
    · rename_i heq
      cases h.symm.trans heq
      rfl
    · rename_i heq
      cases h.symm.trans heq

theorem readSegments_of_none {c : Char} {rest : Text}
    (h : readReferenceSegment (c :: rest) = none) :
    readSegments (c :: rest) = Segment.attach (.literal [c]) (readSegments rest) := by
  rw [readSegments]
  split
  · rename_i heq
    cases h.symm.trans heq
  · rfl

theorem readReferenceSegment_sigil (rest : Text) :
    readReferenceSegment ('$' :: rest) =
      (readReference ('$' :: rest)).map fun (symbol, after) => (.ref symbol, after) := by
  simp [readReferenceSegment]

theorem readReferenceSegment_of_plain {c : Char} (rest : Text) (hsigil : c ≠ '$')
    (hforced : c ≠ '>') : readReferenceSegment (c :: rest) = none := by
  simp [readReferenceSegment, readReference, hsigil, hforced]

/-- A written reference is read back, and then what follows it. -/
theorem readSegments_writeReference {symbol : Symbol} {braced : Bool} {rest : Text}
    (hvalid : symbol.Valid) (hrest : braced = false → beginsIdentifier rest = false) :
    readSegments (writeReference braced symbol ++ rest) = .ref symbol :: readSegments rest := by
  have hread := readReference_writeReference hvalid hrest
  obtain ⟨tail, htail⟩ := writeReference_eq_cons braced hvalid
  rw [htail, List.cons_append] at hread ⊢
  exact readSegments_of_some (by rw [readReferenceSegment_sigil, hread]; rfl)

theorem readSegments_forced_writeReference {symbol : Symbol} {braced : Bool} {rest : Text}
    (hvalid : symbol.Valid) (hrest : braced = false → beginsIdentifier rest = false) :
    readSegments ('>' :: (writeReference braced symbol ++ rest)) =
      .forced symbol :: readSegments rest := by
  refine readSegments_of_some ?_
  rw [readReferenceSegment, readReference_writeReference hvalid hrest]
  rfl

/-- A character that is neither `$` nor `>` is literal text. -/
theorem readSegments_cons_of_plain {c : Char} (rest : Text) (hsigil : c ≠ '$')
    (hforced : c ≠ '>') :
    readSegments (c :: rest) = Segment.attach (.literal [c]) (readSegments rest) :=
  readSegments_of_none (readReferenceSegment_of_plain rest hsigil hforced)

end TextGrammar
