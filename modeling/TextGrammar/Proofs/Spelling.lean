import TextGrammar.Proofs.Parsing
import TextGrammar.Proofs.Groups.Pairs

/-!
# Spelling references anew

A text may spell a reference with braces that it does not need. Reading a text and writing what was
read gives its references in the plain form where that is enough, and every other character stays.
No reference comes into being or is lost that way, whatever `$`, `>` and braces stand next to each
other, so the new spelling is read as the old one was (`readSegments_respelled`).

* `exists_of_readReference` says how a reference that was read is spelled, and
  `readReference_of_respelled` that none stands in the new spelling where there was none before.
* `Text.marks_respelled`: both spellings have the same separators, delimiters and line breaks.
* `Alternative.parse_print_parse` and `Production.parse_print_parse` are the results for
  alternatives and productions.
-/

namespace TextGrammar

/-- A text with its references spelled as they are written. -/
def Text.respelled (text : Text) : Text :=
  writeSegments (readSegments text)

/-! ## How references are spelled -/

theorem eq_takeWhile_append_dropWhile (text : Text) :
    text = text.takeWhile isIdentifierChar ++ text.dropWhile isIdentifierChar :=
  List.takeWhile_append_dropWhile.symm

theorem beginsIdentifier_dropWhile (text : Text) :
    beginsIdentifier (text.dropWhile isIdentifierChar) = false := by
  have hhead := List.head?_dropWhile_not isIdentifierChar text
  unfold beginsIdentifier
  cases hdrop : (text.dropWhile isIdentifierChar).head? with
  | none => rfl
  | some c => simpa [hdrop] using hhead

/-- A reference that was read stands in front of the rest in one of its two forms. -/
theorem exists_of_readReference {text after : Text} {symbol : Symbol}
    (h : readReference text = some (symbol, after)) :
    ∃ braced, text = writeReference braced symbol ++ after ∧
      (braced = false → beginsIdentifier after = false) := by
  unfold readReference at h
  split at h
  · rename_i rest
    split at h
    · rename_i c identifier tail htake hdrop
      cases h
      refine ⟨true, ?_, fun hfalse => Bool.noConfusion hfalse⟩
      have hrest := eq_takeWhile_append_dropWhile rest
      rw [htake, hdrop] at hrest
      rw [hrest]
      simp [writeReference, Symbol.identifier, Symbol.ofIdentifier]
    · cases h
  · rename_i rest _
    split at h
    · rename_i c identifier htake
      cases h
      refine ⟨false, ?_, fun _ => beginsIdentifier_dropWhile rest⟩
      have hrest := eq_takeWhile_append_dropWhile rest
      rw [htake] at hrest
      exact congrArg ('$' :: ·) hrest
    · cases h
  · cases h

/-- What a text begins with if a reference, forced or not, is read from it. -/
inductive Spelled : Text → Segment → Text → Prop where
  | ref {braced symbol after} (hvalid : symbol.Valid)
      (hafter : braced = false → beginsIdentifier after = false) :
      Spelled (writeReference braced symbol ++ after) (.ref symbol) after
  | forced {braced symbol after} (hvalid : symbol.Valid)
      (hafter : braced = false → beginsIdentifier after = false) :
      Spelled ('>' :: (writeReference braced symbol ++ after)) (.forced symbol) after

theorem spelled_of_readReferenceSegment {text after : Text} {segment : Segment}
    (h : readReferenceSegment text = some (segment, after)) : Spelled text segment after := by
  unfold readReferenceSegment at h
  split at h
  all_goals
    rw [Option.map_eq_some_iff] at h
    obtain ⟨⟨symbol, tail⟩, hread, heq⟩ := h
    cases heq
    have hvalid := valid_of_readReference hread
    obtain ⟨braced, rfl, hafter⟩ := exists_of_readReference hread
  · exact .forced hvalid hafter
  · exact .ref hvalid hafter

theorem readReference_of_head {text : Text} (h : text.head? ≠ some '$') :
    readReference text = none := by
  unfold readReference
  split
  · simp at h
  · simp at h
  · rfl

namespace Text

/-! ## The new spelling, piece by piece -/

theorem writeSegments_attach_literal (c : Char) (segments : List Segment) :
    writeSegments (Segment.attach (.literal [c]) segments) = c :: writeSegments segments := by
  cases segments with
  | nil => rfl
  | cons segment rest => cases segment <;> rfl

theorem beginsGlued_attach_literal (c : Char) (segments : List Segment) :
    beginsGlued (Segment.attach (.literal [c]) segments) = isIdentifierChar c := by
  cases segments with
  | nil => rfl
  | cons segment rest => cases segment <;> rfl

theorem respelled_of_some {text after : Text} {segment : Segment}
    (h : readReferenceSegment text = some (segment, after)) :
    text.respelled = writeSegments (segment :: readSegments after) := by
  rw [respelled, readSegments_of_some h]

theorem respelled_of_none {c : Char} {rest : Text} (h : readReferenceSegment (c :: rest) = none) :
    respelled (c :: rest) = c :: rest.respelled := by
  rw [respelled, readSegments_of_none h, writeSegments_attach_literal, respelled]

/-- The first character stays. -/
theorem head?_respelled (text : Text) : text.respelled.head? = text.head? := by
  cases text with
  | nil => simp [respelled, readSegments, writeSegments]
  | cons c rest =>
    cases hread : readReferenceSegment (c :: rest) with
    | none => rw [respelled_of_none hread, List.head?_cons, List.head?_cons]
    | some found =>
      obtain ⟨segment, after⟩ := found
      rw [respelled_of_some hread]
      generalize c :: rest = text at hread
      cases spelled_of_readReferenceSegment hread with
      | ref hvalid hafter =>
        rename_i braced symbol
        obtain ⟨tail, htail⟩ := writeReference_eq_cons braced hvalid
        obtain ⟨tail', htail'⟩ := writeReference_eq_cons (beginsGlued (readSegments after)) hvalid
        rw [writeSegments, htail, htail', List.cons_append, List.cons_append, List.head?_cons,
          List.head?_cons]
      | forced hvalid hafter => rfl

theorem respelled_eq_nil_iff {text : Text} : text.respelled = [] ↔ text = [] := by
  rw [← List.head?_eq_none_iff, head?_respelled, List.head?_eq_none_iff]

theorem beginsIdentifier_respelled (text : Text) :
    beginsIdentifier text.respelled = beginsIdentifier text := by
  rw [beginsIdentifier, head?_respelled, beginsIdentifier]

/-- Identifier characters stay, so a run of them in the new spelling was there before. -/
theorem exists_of_respelled_eq_append {identifier text after : Text}
    (hall : ∀ c ∈ identifier, isIdentifierChar c = true)
    (h : text.respelled = identifier ++ after) :
    ∃ rest, text = identifier ++ rest ∧ rest.respelled = after := by
  induction identifier generalizing text with
  | nil => exact ⟨text, rfl, h⟩
  | cons c identifier ih =>
    have hc := hall c List.mem_cons_self
    have hhead := head?_respelled text
    rw [h, List.cons_append, List.head?_cons] at hhead
    obtain ⟨rest, rfl⟩ := List.head?_eq_some_iff.1 hhead.symm
    have hsigil : c ≠ '$' :=
      ne_of_isIdentifierChar hc (isIdentifierChar_of_mem_signs (by decide))
    have hforced : c ≠ '>' :=
      ne_of_isIdentifierChar hc (isIdentifierChar_of_mem_signs (by decide))
    rw [respelled_of_none (readReferenceSegment_of_plain rest hsigil hforced), List.cons_append,
      List.cons.injEq] at h
    obtain ⟨tail, rfl, htail⟩ := ih (fun d hd => hall d (List.mem_cons_of_mem _ hd)) h.2
    exact ⟨tail, rfl, htail⟩

/-! ## No reference comes into being -/

/-- Where the new spelling has a reference behind a `$`, there was one before. -/
theorem readReference_of_respelled {rest : Text}
    (h : readReference ('$' :: rest) = none) : readReference ('$' :: rest.respelled) = none := by
  by_contra hsome
  obtain ⟨⟨symbol, after⟩, hread⟩ := Option.ne_none_iff_exists'.1 hsome
  have hvalid := valid_of_readReference hread
  obtain ⟨c, identifier, rfl, hall⟩ := hvalid.exists_identifier
  obtain ⟨braced, hspelled, hafter⟩ := exists_of_readReference hread
  -- The reference is spelled in the same way in front of what `after` was before.
  suffices hbefore : ∃ before : Text, before.respelled = after ∧ '$' :: rest =
      writeReference braced (Symbol.ofIdentifier (c :: identifier)) ++ before by
    obtain ⟨before, rfl, heq⟩ := hbefore
    rw [beginsIdentifier_respelled] at hafter
    rw [heq, readReference_writeReference hvalid hafter] at h
    cases h
  cases braced with
  | false =>
    rw [writeReference, if_neg Bool.false_ne_true, Symbol.ofIdentifier, List.cons_append,
      List.cons.injEq] at hspelled
    obtain ⟨before, rfl, hbefore⟩ := exists_of_respelled_eq_append hall hspelled.2
    exact ⟨before, hbefore, rfl⟩
  | true =>
    have hform : '$' :: rest.respelled = '$' :: '{' :: (c :: identifier ++ '}' :: after) := by
      rw [hspelled]
      simp [writeReference, Symbol.identifier, Symbol.ofIdentifier]
    rw [List.cons.injEq] at hform
    have hhead := head?_respelled rest
    rw [hform.2, List.head?_cons] at hhead
    obtain ⟨tail, rfl⟩ := List.head?_eq_some_iff.1 hhead.symm
    rw [respelled_of_none (readReferenceSegment_of_plain tail (by decide) (by decide)),
      List.cons.injEq] at hform
    obtain ⟨closed, rfl, hclosed⟩ := exists_of_respelled_eq_append hall hform.2.2
    have hclose := head?_respelled closed
    rw [hclosed, List.head?_cons] at hclose
    obtain ⟨before, rfl⟩ := List.head?_eq_some_iff.1 hclose.symm
    rw [respelled_of_none (readReferenceSegment_of_plain before (by decide) (by decide)),
      List.cons.injEq] at hclosed
    refine ⟨before, hclosed.2, ?_⟩
    simp [writeReference, Symbol.identifier, Symbol.ofIdentifier]

/-- A character that no reference begins with is none in the new spelling either. -/
theorem readReferenceSegment_of_respelled {c : Char} {rest : Text}
    (h : readReferenceSegment (c :: rest) = none) :
    readReferenceSegment (c :: rest.respelled) = none := by
  by_cases hsigil : c = '$'
  · subst hsigil
    rw [readReferenceSegment_sigil, Option.map_eq_none_iff] at h ⊢
    exact readReference_of_respelled h
  · by_cases hforced : c = '>'
    · subst hforced
      rw [readReferenceSegment, Option.map_eq_none_iff] at h ⊢
      by_cases hhead : rest.head? = some '$'
      · obtain ⟨tail, rfl⟩ := List.head?_eq_some_iff.1 hhead
        have hnone : readReferenceSegment ('$' :: tail) = none := by
          rw [readReferenceSegment_sigil, h]
          rfl
        rw [respelled_of_none hnone]
        exact readReference_of_respelled h
      · exact readReference_of_head (by rwa [head?_respelled])
    · exact readReferenceSegment_of_plain _ hsigil hforced

/-- Braces are asked for exactly where an identifier character follows. -/
theorem beginsGlued_readSegments (text : Text) :
    beginsGlued (readSegments text) = beginsIdentifier text := by
  cases text with
  | nil => simp [readSegments, beginsGlued, beginsIdentifier]
  | cons c rest =>
    cases hread : readReferenceSegment (c :: rest) with
    | none =>
      rw [readSegments_of_none hread, beginsGlued_attach_literal]
      rfl
    | some found =>
      obtain ⟨segment, after⟩ := found
      have hsigil : isIdentifierChar '$' = false := isIdentifierChar_of_mem_signs (by decide)
      have hforced : isIdentifierChar '>' = false := isIdentifierChar_of_mem_signs (by decide)
      rw [readSegments_of_some hread]
      generalize c :: rest = text at hread
      cases spelled_of_readReferenceSegment hread with
      | ref hvalid hafter =>
        rename_i braced symbol
        obtain ⟨tail, htail⟩ := writeReference_eq_cons braced hvalid
        simp [beginsGlued, beginsIdentifier, htail, hsigil]
      | forced hvalid hafter => simp [beginsGlued, beginsIdentifier, hforced]

/-! ## The new spelling is read in the same way -/

theorem readSegments_respelled (text : Text) :
    readSegments text.respelled = readSegments text := by
  induction text using readSegments.induct with
  | case1 => simp [respelled, readSegments, writeSegments]
  | case2 c rest segment after hread ih =>
    have hglued : beginsGlued (readSegments after) = false →
        beginsIdentifier after.respelled = false := by
      rw [beginsGlued_readSegments, beginsIdentifier_respelled]
      exact id
    rw [respelled_of_some hread, readSegments_of_some hread]
    generalize c :: rest = text at hread
    cases spelled_of_readReferenceSegment hread with
    | ref hvalid hafter =>
      rw [writeSegments, ← respelled, readSegments_writeReference hvalid hglued, ih]
    | forced hvalid hafter =>
      rw [writeSegments, ← respelled, readSegments_forced_writeReference hvalid hglued, ih]
  | case3 c rest hread ih =>
    rw [respelled_of_none hread, readSegments_of_none (readReferenceSegment_of_respelled hread),
      readSegments_of_none hread, ih]

/-! ## What both spellings have in common -/

theorem marks_intercalate_bar (pieces : List Text) :
    marks (['|'].intercalate pieces) = ['|'].intercalate (pieces.map marks) := by
  induction pieces with
  | nil => rfl
  | cons piece rest ih =>
    cases rest with
    | nil => simp
    | cons next rest =>
      have hbar : marks ['|'] = ['|'] := by decide
      rw [List.intercalate_cons_cons, marks_append, marks_append, ih, hbar]
      exact List.intercalate_cons_cons.symm

theorem marks_writeReference {symbol : Symbol} (hvalid : symbol.Valid) (braced : Bool) :
    (writeReference braced symbol).marks = [] :=
  marks_eq_nil fun _ => isInert_of_mem_writeReference hvalid

theorem marks_respelled (text : Text) : text.respelled.marks = text.marks := by
  induction text using readSegments.induct with
  | case1 => simp [respelled, readSegments, writeSegments]
  | case2 c rest segment after hread ih =>
    rw [respelled_of_some hread]
    generalize c :: rest = text at hread
    have hforced : isInert '>' = true := by decide
    cases spelled_of_readReferenceSegment hread with
    | ref hvalid hafter =>
      simp only [writeSegments, marks_append, marks_writeReference hvalid, List.nil_append]
      exact ih
    | forced hvalid hafter =>
      simp only [writeSegments, marks_cons, hforced, if_true, marks_append,
        marks_writeReference hvalid, List.nil_append]
      exact ih
  | case3 c rest hread ih => rw [respelled_of_none hread, marks_cons, marks_cons, ih]

theorem beginsBlank_respelled (text : Text) :
    Group.beginsBlank text.respelled = Group.beginsBlank text := by
  rw [Group.beginsBlank, head?_respelled, Group.beginsBlank]

theorem endsBlank_cons (c : Char) (rest : Text) :
    Group.endsBlank (c :: rest) =
      if rest = [] then Unicode.isWhitespace c else Group.endsBlank rest := by
  cases rest with
  | nil => rfl
  | cons d rest =>
    rw [Group.endsBlank, List.getLast?_cons_cons, if_neg (List.cons_ne_nil d rest), Group.endsBlank]

theorem endsBlank_respelled (text : Text) :
    Group.endsBlank text.respelled = Group.endsBlank text := by
  induction text using readSegments.induct with
  | case1 => simp [respelled, readSegments, writeSegments]
  | case2 c rest segment after hread ih =>
    rw [respelled_of_some hread]
    generalize c :: rest = text at hread
    have hblank : Group.endsBlank ['>'] = false := by decide
    have hforced : ∀ rest : Text, Group.endsBlank ('>' :: rest) = Group.endsBlank rest :=
      Content.endsBlank_append hblank
    cases spelled_of_readReferenceSegment hread with
    | ref hvalid hafter =>
      have hends := fun braced =>
        Content.endsBlank_append (Content.endsBlank_writeReference hvalid braced)
      rw [writeSegments, ← respelled, hends, hends, ih]
    | forced hvalid hafter =>
      have hends := fun braced =>
        Content.endsBlank_append (Content.endsBlank_writeReference hvalid braced)
      rw [writeSegments, ← respelled, hforced, hforced, hends, hends, ih]
  | case3 c rest hread ih =>
    rw [respelled_of_none hread, endsBlank_cons, endsBlank_cons, ih]
    simp only [respelled_eq_nil_iff]

end Text

/-! ## Alternatives and productions -/

namespace Alternative

theorem print_parse (text : Text) : (parse text).print = text.trim.respelled :=
  rfl

theorem ends_print_parse (text : Text) :
    Group.beginsBlank (parse text).print = false ∧ Group.endsBlank (parse text).print = false := by
  rw [print_parse, Text.beginsBlank_respelled, Text.endsBlank_respelled]
  exact Text.ends_trim text

theorem marks_print_parse_sublist (text : Text) :
    (parse text).print.marks.Sublist text.marks := by
  rw [print_parse, Text.marks_respelled]
  exact (Text.trim_sublist text).filter _

/-- An alternative that was read is written in a form that is read as the same alternative. -/
theorem parse_print_parse (text : Text) : parse (parse text).print = parse text := by
  obtain ⟨hbegins, hends⟩ := ends_print_parse text
  have htrim : Text.trim (parse text).print = (parse text).print := Text.trim_eq_self hbegins hends
  rw [parse, htrim, print_parse, Text.readSegments_respelled]
  rfl

end Alternative

namespace Production

theorem print_parse (content : Text) : (parse content).print =
    ['|'].intercalate ((content.splitOn '|').map fun piece => (Alternative.parse piece).print) := by
  rw [print, parse, List.map_map]
  rfl

theorem marks_print_parse_sublist (content : Text) :
    (parse content).print.marks.Sublist content.marks := by
  have hpieces : List.Forall₂ List.Sublist
      (((content.splitOn '|').map fun piece => (Alternative.parse piece).print).map Text.marks)
      ((content.splitOn '|').map Text.marks) := by
    rw [List.map_map, List.forall₂_map_left_iff, List.forall₂_map_right_iff, List.forall₂_same]
    exact fun piece _ => Alternative.marks_print_parse_sublist piece
  have hcontent := Text.marks_intercalate_bar (content.splitOn '|')
  rw [List.intercalate_splitOn] at hcontent
  rw [print_parse, Text.marks_intercalate_bar, hcontent]
  exact Text.intercalate_sublist ['|'] hpieces

theorem ends_intercalate_bar {pieces : List Text}
    (h : ∀ piece ∈ pieces, Group.beginsBlank piece = false ∧ Group.endsBlank piece = false) :
    Group.beginsBlank (['|'].intercalate pieces) = false ∧
      Group.endsBlank (['|'].intercalate pieces) = false := by
  have hbar : Unicode.isWhitespace '|' = false := by decide
  induction pieces with
  | nil => exact ⟨rfl, rfl⟩
  | cons piece rest ih =>
    obtain ⟨hpiece, hrest⟩ := List.forall_mem_cons.1 h
    cases rest with
    | nil => simpa using hpiece
    | cons next rest =>
      obtain ⟨-, hends⟩ := ih hrest
      have hbars : Group.endsBlank ['|'] = false := by decide
      rw [List.intercalate_cons_cons, List.append_assoc]
      constructor
      · cases piece with
        | nil => simpa [Group.beginsBlank] using hbar
        | cons c piece => exact hpiece.1
      · rw [Content.endsBlank_append hpiece.2, Content.endsBlank_append hbars, hends]

theorem ends_print_parse (content : Text) : Group.beginsBlank (parse content).print = false ∧
    Group.endsBlank (parse content).print = false := by
  rw [print_parse]
  refine ends_intercalate_bar fun written hwritten => ?_
  obtain ⟨piece, -, rfl⟩ := List.mem_map.1 hwritten
  exact Alternative.ends_print_parse piece

/-- A content that is not blank is not written as nothing. -/
theorem trim_eq_nil_of_print_parse {content : Text} (h : (parse content).print = []) :
    content.trim = [] := by
  rw [print_parse] at h
  have hjoin : ['|'].intercalate (content.splitOn '|') = content := List.intercalate_splitOn '|'
  cases hsplit : content.splitOn '|' with
  | nil => exact absurd hsplit (List.splitOn_ne_nil _ content)
  | cons first others =>
    rw [hsplit] at h hjoin
    cases others with
    | nil =>
      rw [List.intercalate_singleton] at hjoin
      rw [List.map_singleton, List.intercalate_singleton, Alternative.print_parse,
        Text.respelled_eq_nil_iff, hjoin] at h
      exact h
    | cons second others =>
      rw [List.map_cons, List.map_cons, List.intercalate_cons_cons] at h
      simp at h

/-- A production that was read is written in a form that is read as the same production. -/
theorem parse_print_parse (content : Text) : parse (parse content).print = parse content := by
  have hpieces : ∀ written ∈ (content.splitOn '|').map fun piece => (Alternative.parse piece).print,
      '|' ∉ written := by
    intro written hwritten
    obtain ⟨piece, hpiece, rfl⟩ := List.mem_map.1 hwritten
    have hbar : isInert '|' = false := by decide
    rw [← Text.mem_marks hbar]
    intro hmem
    refine Text.not_mem_of_mem_splitOn hpiece ?_
    rw [← Text.mem_marks hbar]
    exact (Alternative.marks_print_parse_sublist piece).subset hmem
  have hne : (content.splitOn '|').map (fun piece => (Alternative.parse piece).print) ≠ [] := by
    rw [ne_eq, List.map_eq_nil_iff]
    exact List.splitOn_ne_nil _ content
  rw [print_parse, parse, List.splitOn_intercalate '|' hpieces hne, List.map_map, parse]
  congr 1
  exact List.map_congr_left fun piece _ => Alternative.parse_print_parse piece

end Production

end TextGrammar
