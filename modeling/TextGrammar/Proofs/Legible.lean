import Mathlib.Data.List.Chain
import Mathlib.Data.List.Infix
import TextGrammar.Proofs.Spelling

/-!
# Legible alternatives

Not every alternative can be told from its written form: a literal may hold what is read as a
reference, and a `>` at its end takes hold of a reference behind it.

* `Alternative.Legible` says what an alternative has to avoid.
* `readSegments_writeSegments`: written without those, segments are read back. A reference cannot
  reach over the end of the literal it begins in (`Text.ne_writeReference_append`), since neither
  `$` nor `>` occurs in a reference behind its first character.
* `Alternative.legible_parse`: what is read avoids them.
* `Text.respelled_eq_self`: a text without `${` is written as it was.
* `Alternative.reads_back_exactly` puts them together.
-/

namespace TextGrammar

namespace Text

/-- Somewhere in a text stands what is read as a reference: `$` and an identifier character, or
`${`, one or more identifier characters, and `}`. -/
def SpellsReference (text : Text) : Prop :=
  (∃ c, isIdentifierChar c = true ∧ ['$', c] <:+: text) ∨
    ∃ identifier : Text, identifier ≠ [] ∧ (∀ c ∈ identifier, isIdentifierChar c = true) ∧
      '$' :: '{' :: (identifier ++ ['}']) <:+: text

end Text

namespace Segment

/-- Whether a segment is a literal that begins with whitespace. -/
def beginsBlank : Segment → Bool
  | literal text => Group.beginsBlank text
  | _ => false

/-- Whether a segment is a literal that ends with whitespace. -/
def endsBlank : Segment → Bool
  | literal text => Group.endsBlank text
  | _ => false

theorem ne_nil_of_ne_literal_nil {text : Text} (h : literal text ≠ literal []) : text ≠ [] :=
  fun hnil => h (congrArg literal hnil)

/-- A `>` at the end of a literal is not directly in front of a reference. -/
def Unforced : Segment → Segment → Prop
  | literal text, ref _ => text.getLast? ≠ some '>'
  | _, _ => True

end Segment

/-- An alternative that shows in its written form. -/
structure Alternative.Legible (a : Alternative) : Prop where
  /-- No literal is empty, and no two are adjacent. -/
  separated : a.Separated
  /-- No reference becomes a forced one. -/
  unforced : a.segments.IsChain Segment.Unforced
  /-- A literal at the beginning does not begin with whitespace. -/
  begins : a.segments.head?.any Segment.beginsBlank = false
  /-- A literal at the end does not end with whitespace. -/
  ends : a.segments.getLast?.any Segment.endsBlank = false
  /-- No literal holds a reference. -/
  plain : ∀ text, .literal text ∈ a.segments → ¬text.SpellsReference

/-! ## References in a text -/

theorem writeReference_false_ofIdentifier (identifier : Text) :
    writeReference false (Symbol.ofIdentifier identifier) = '$' :: identifier :=
  rfl

theorem writeReference_true_ofIdentifier (identifier : Text) :
    writeReference true (Symbol.ofIdentifier identifier) =
      '$' :: '{' :: (identifier ++ ['}']) :=
  rfl

/-- In a written reference, what begins another one stands at the beginning only. -/
theorem ne_of_mem_tail_writeReference {braced : Bool} {symbol : Symbol} (hvalid : symbol.Valid)
    {c : Char} (hc : c ∈ (writeReference braced symbol).tail) : c ≠ '$' ∧ c ≠ '>' := by
  obtain ⟨d, identifier, rfl, hall⟩ := hvalid.exists_identifier
  have hidentifier : ∀ c ∈ d :: identifier, c ≠ '$' ∧ c ≠ '>' := fun c hc =>
    ⟨ne_of_isIdentifierChar (hall c hc) (isIdentifierChar_of_mem_signs (by decide)),
      ne_of_isIdentifierChar (hall c hc) (isIdentifierChar_of_mem_signs (by decide))⟩
  cases braced with
  | false => exact hidentifier c hc
  | true =>
    rw [writeReference_true_ofIdentifier, List.tail_cons, List.mem_cons, List.mem_append,
      List.mem_singleton] at hc
    obtain rfl | hc | rfl := hc
    · decide
    · exact hidentifier c hc
    · decide

/-- Where a written reference stands, a reference is read, if perhaps with a longer name. -/
theorem readReference_writeReference_append {symbol : Symbol} (hvalid : symbol.Valid)
    (braced : Bool) (rest : Text) :
    readReference (writeReference braced symbol ++ rest) ≠ none := by
  cases braced with
  | true =>
    rw [readReference_writeReference hvalid (fun hfalse => Bool.noConfusion hfalse)]
    exact Option.some_ne_none _
  | false =>
    obtain ⟨c, identifier, rfl, hall⟩ := hvalid.exists_identifier
    have hlonger : ∀ d ∈ c :: (identifier ++ rest.takeWhile isIdentifierChar),
        isIdentifierChar d = true := by
      rw [← List.cons_append]
      exact List.forall_mem_append.2 ⟨hall, List.all_eq_true.1 List.all_takeWhile⟩
    have hform : writeReference false (Symbol.ofIdentifier (c :: identifier)) ++ rest =
        writeReference false
          (Symbol.ofIdentifier (c :: (identifier ++ rest.takeWhile isIdentifierChar))) ++
        rest.dropWhile isIdentifierChar := by
      rw [writeReference_false_ofIdentifier, writeReference_false_ofIdentifier, List.cons_append,
        List.cons_append, List.cons_append, List.cons_append, List.append_assoc,
        ← eq_takeWhile_append_dropWhile]
    rw [hform, readReference_writeReference (Symbol.valid_ofIdentifier hlonger)
      (fun _ => beginsIdentifier_dropWhile rest)]
    exact Option.some_ne_none _

namespace Text

theorem spellsReference_iff {text : Text} : text.SpellsReference ↔
    ∃ braced symbol, symbol.Valid ∧ writeReference braced symbol <:+: text := by
  constructor
  · rintro (⟨c, hc, hpart⟩ | ⟨identifier, hne, hall, hpart⟩)
    · exact ⟨false, Symbol.ofIdentifier [c],
        Symbol.valid_ofIdentifier (List.forall_mem_singleton.2 hc), hpart⟩
    · obtain ⟨c, identifier, rfl⟩ := List.exists_cons_of_ne_nil hne
      exact ⟨true, Symbol.ofIdentifier (c :: identifier), Symbol.valid_ofIdentifier hall, hpart⟩
  · rintro ⟨braced, symbol, hvalid, hpart⟩
    obtain ⟨c, identifier, rfl, hall⟩ := hvalid.exists_identifier
    cases braced with
    | false =>
      have hfront : ['$', c] <+: '$' :: c :: identifier := ⟨identifier, rfl⟩
      exact .inl ⟨c, hall c List.mem_cons_self, hfront.isInfix.trans hpart⟩
    | true => exact .inr ⟨c :: identifier, List.cons_ne_nil _ _, hall, hpart⟩

theorem SpellsReference.mono {text text' : Text} (h : text.SpellsReference)
    (hpart : text <:+: text') : text'.SpellsReference := by
  rw [spellsReference_iff] at h ⊢
  obtain ⟨braced, symbol, hvalid, hwritten⟩ := h
  exact ⟨braced, symbol, hvalid, hwritten.trans hpart⟩

/-- A text of one character is too short for a reference. -/
theorem not_spellsReference_singleton (c : Char) : ¬SpellsReference [c] := by
  rintro (⟨d, -, hpart⟩ | ⟨identifier, -, -, hpart⟩)
  · exact absurd hpart.length_le (by simp)
  · exact absurd hpart.length_le (by simp)

/-- A character in front of a text without references begins one only if one is read there. -/
theorem not_spellsReference_cons {c : Char} {text rest : Text} (h : ¬text.SpellsReference)
    (hread : readReferenceSegment (c :: (text ++ rest)) = none) :
    ¬SpellsReference (c :: text) := by
  intro hspells
  obtain ⟨braced, symbol, hvalid, hpart⟩ := spellsReference_iff.1 hspells
  rcases List.infix_cons_iff.1 hpart with ⟨back, hback⟩ | hpart
  · obtain ⟨tail, htail⟩ := writeReference_eq_cons braced hvalid
    have hsigil : c = '$' := by
      rw [htail, List.cons_append, List.cons.injEq] at hback
      exact hback.1.symm
    subst hsigil
    rw [readReferenceSegment_sigil, Option.map_eq_none_iff, ← List.cons_append, ← hback,
      List.append_assoc] at hread
    exact readReference_writeReference_append hvalid braced _ hread
  · exact h (spellsReference_iff.2 ⟨braced, symbol, hvalid, hpart⟩)

/-! ## Written segments are read back -/

/-- No reference begins in a literal and ends behind it, where a reference comes next. -/
theorem ne_writeReference_append {text rest after : Text} {braced : Bool} {symbol : Symbol}
    (hne : text ≠ []) (hplain : ¬text.SpellsReference)
    (hrest : ∀ c ∈ rest.head?, c = '$' ∨ c = '>') (hvalid : symbol.Valid) :
    text ++ rest ≠ writeReference braced symbol ++ after := by
  intro heq
  rcases List.append_eq_append_iff.1 heq with ⟨front, hwritten, hafter⟩ | ⟨back, hback, -⟩
  · cases front with
    | nil =>
      rw [List.append_nil] at hwritten
      exact hplain (spellsReference_iff.2 ⟨braced, symbol, hvalid, hwritten ▸ List.infix_rfl⟩)
    | cons c front =>
      -- The literal would have to end inside the reference, with `c` next.
      obtain ⟨d, text, rfl⟩ := List.exists_cons_of_ne_nil hne
      have hmem : c ∈ (writeReference braced symbol).tail := by
        rw [hwritten]
        simp
      obtain ⟨hsigil, hforced⟩ := ne_of_mem_tail_writeReference hvalid hmem
      rcases hrest c (by rw [hafter]; rfl) with rfl | rfl
      · exact hsigil rfl
      · exact hforced rfl
  · exact hplain (spellsReference_iff.2
      ⟨braced, symbol, hvalid, hback ▸ (List.prefix_append _ _).isInfix⟩)

end Text

/-- A literal without references is read as such in front of a reference or at the end. -/
theorem readSegments_append {text rest : Text} (hplain : ¬text.SpellsReference)
    (hrest : ∀ c ∈ rest.head?, c = '$' ∨ c = '>')
    (hforced : rest.head? = some '$' → text.getLast? ≠ some '>') :
    readSegments (text ++ rest) = Segment.attach (.literal text) (readSegments rest) := by
  induction text with
  | nil => rfl
  | cons c text ih =>
    have hplain' : ¬Text.SpellsReference text := fun h =>
      hplain (h.mono (List.suffix_cons c text).isInfix)
    have hnone : readReferenceSegment (c :: text ++ rest) = none := by
      by_contra hsome
      obtain ⟨⟨segment, after⟩, hread⟩ := Option.ne_none_iff_exists'.1 hsome
      generalize hform : c :: text ++ rest = whole at hread
      cases spelled_of_readReferenceSegment hread with
      | ref hvalid hafter =>
        exact Text.ne_writeReference_append (List.cons_ne_nil c text) hplain hrest hvalid hform
      | forced hvalid hafter =>
        rename_i braced symbol
        rw [List.cons_append, List.cons.injEq] at hform
        obtain ⟨rfl, hform⟩ := hform
        cases text with
        | nil =>
          obtain ⟨tail, htail⟩ := writeReference_eq_cons braced hvalid
          refine hforced ?_ rfl
          rw [show rest = writeReference braced symbol ++ after from hform, htail]
          rfl
        | cons d text =>
          exact Text.ne_writeReference_append (List.cons_ne_nil d text) hplain' hrest hvalid hform
    have hforced' : rest.head? = some '$' → text.getLast? ≠ some '>' := by
      intro hhead hlast
      refine hforced hhead ?_
      rw [List.getLast?_cons, hlast]
      rfl
    rw [List.cons_append] at hnone ⊢
    rw [readSegments_of_none hnone, ih hplain' hforced',
      Segment.attach_literal_attach_literal]
    rfl

section Written

variable {segment : Segment} {segments : List Segment} {text : Text}

theorem head?_writeSegments_ref {symbol : Symbol} (hvalid : symbol.Valid)
    (segments : List Segment) : (writeSegments (.ref symbol :: segments)).head? = some '$' := by
  obtain ⟨tail, htail⟩ := writeReference_eq_cons (beginsGlued segments) hvalid
  rw [writeSegments, htail]
  rfl

/-- A reference is braced wherever the written form goes on with an identifier character. -/
theorem beginsIdentifier_writeSegments (hfilled : ∀ segment ∈ segments, segment ≠ .literal [])
    (hvalid : ∀ symbol ∈ segments.filterMap Segment.reference?, symbol.Valid) :
    beginsIdentifier (writeSegments segments) = beginsGlued segments := by
  have hsigil : isIdentifierChar '$' = false := isIdentifierChar_of_mem_signs (by decide)
  have hforced : isIdentifierChar '>' = false := isIdentifierChar_of_mem_signs (by decide)
  cases segments with
  | nil => rfl
  | cons segment segments =>
    cases segment with
    | literal text =>
      cases text with
      | nil => exact absurd rfl (hfilled _ List.mem_cons_self)
      | cons c text => rfl
    | ref symbol =>
      rw [beginsIdentifier, head?_writeSegments_ref (hvalid symbol List.mem_cons_self)]
      exact hsigil
    | forced symbol => exact hforced

/-- What is written behind a literal leaves its end alone. -/
theorem head?_writeSegments_of_literal
    (hseparated : (⟨.literal text :: segments⟩ : Alternative).Separated)
    (hunforced : (.literal text :: segments).IsChain Segment.Unforced)
    (hvalid : ∀ symbol ∈ segments.filterMap Segment.reference?, symbol.Valid) :
    (∀ c ∈ (writeSegments segments).head?, c = '$' ∨ c = '>') ∧
      ((writeSegments segments).head? = some '$' → text.getLast? ≠ some '>') := by
  cases segments with
  | nil => simp [writeSegments]
  | cons next rest =>
    cases next with
    | literal next =>
      exact absurd ⟨⟨text, rfl⟩, next, rfl⟩ ((List.isChain_cons.1 hseparated.apart).1 _ rfl)
    | ref symbol =>
      rw [head?_writeSegments_ref (hvalid symbol List.mem_cons_self)]
      exact ⟨fun _ hc => .inl (Option.some.inj hc).symm,
        fun _ => (List.isChain_cons.1 hunforced).1 _ rfl⟩
    | forced symbol => simp [writeSegments]

/-- Written segments are read back. -/
theorem readSegments_writeSegments (hseparated : (⟨segments⟩ : Alternative).Separated)
    (hunforced : segments.IsChain Segment.Unforced)
    (hplain : ∀ text, .literal text ∈ segments → ¬text.SpellsReference)
    (hvalid : ∀ symbol ∈ segments.filterMap Segment.reference?, symbol.Valid) :
    readSegments (writeSegments segments) = segments := by
  induction segments with
  | nil => simp [writeSegments, readSegments]
  | cons segment rest ih =>
    have hvalid' : ∀ symbol ∈ rest.filterMap Segment.reference?, symbol.Valid := fun symbol hmem =>
      hvalid symbol (((List.sublist_cons_self segment rest).filterMap _).subset hmem)
    have hrest : readSegments (writeSegments rest) = rest :=
      ih hseparated.tail (List.isChain_cons.1 hunforced).2
        (fun text hmem => hplain text (List.mem_cons_of_mem _ hmem)) hvalid'
    have hglued : beginsGlued rest = false → beginsIdentifier (writeSegments rest) = false := by
      rw [beginsIdentifier_writeSegments hseparated.tail.filled hvalid']
      exact id
    cases segment with
    | literal text =>
      obtain ⟨hhead, hforced⟩ := head?_writeSegments_of_literal hseparated hunforced hvalid'
      rw [writeSegments, readSegments_append (hplain text List.mem_cons_self) hhead hforced, hrest,
        hseparated.attach_eq_cons]
    | ref symbol =>
      rw [writeSegments, readSegments_writeReference (hvalid symbol List.mem_cons_self) hglued,
        hrest]
    | forced symbol =>
      rw [writeSegments, readSegments_forced_writeReference (hvalid symbol List.mem_cons_self)
        hglued, hrest]

/-! ## The ends of what is written -/

theorem beginsBlank_writeSegments (hfilled : ∀ segment ∈ segments, segment ≠ .literal [])
    (hvalid : ∀ symbol ∈ segments.filterMap Segment.reference?, symbol.Valid) :
    Group.beginsBlank (writeSegments segments) = segments.head?.any Segment.beginsBlank := by
  have hsigil : Unicode.isWhitespace '$' = false := by decide
  have hforced : Unicode.isWhitespace '>' = false := by decide
  cases segments with
  | nil => rfl
  | cons segment rest =>
    cases segment with
    | literal text =>
      cases text with
      | nil => exact absurd rfl (hfilled _ List.mem_cons_self)
      | cons c text => rfl
    | ref symbol =>
      rw [Group.beginsBlank, head?_writeSegments_ref (hvalid symbol List.mem_cons_self)]
      exact hsigil
    | forced symbol => exact hforced

theorem Text.endsBlank_append_of_ne_nil {rest : Text} (hne : rest ≠ []) (text : Text) :
    Group.endsBlank (text ++ rest) = Group.endsBlank rest := by
  rw [Group.endsBlank, List.getLast?_append_of_ne_nil _ hne, Group.endsBlank]

theorem writeSegments_ne_nil (hfilled : ∀ segment ∈ segments, segment ≠ .literal [])
    (hvalid : ∀ symbol ∈ segments.filterMap Segment.reference?, symbol.Valid)
    (hne : segments ≠ []) : writeSegments segments ≠ [] := by
  obtain ⟨segment, rest, rfl⟩ := List.exists_cons_of_ne_nil hne
  intro hnil
  cases segment with
  | literal text =>
    exact Segment.ne_nil_of_ne_literal_nil (hfilled _ List.mem_cons_self)
      (List.append_eq_nil_iff.1 hnil).1
  | ref symbol =>
    have hhead := head?_writeSegments_ref (hvalid symbol List.mem_cons_self) rest
    rw [hnil] at hhead
    cases hhead
  | forced symbol => cases hnil

/-- What comes last is written last. -/
theorem writeSegments_suffix (front back : List Segment) :
    writeSegments back <:+ writeSegments (front ++ back) := by
  induction front with
  | nil => exact List.suffix_rfl
  | cons segment front ih =>
    cases segment with
    | literal text => exact ih.trans (List.suffix_append _ _)
    | ref symbol => exact ih.trans (List.suffix_append _ _)
    | forced symbol => exact (ih.trans (List.suffix_append _ _)).trans (List.suffix_cons _ _)

theorem endsBlank_writeSegments (hfilled : ∀ segment ∈ segments, segment ≠ .literal [])
    (hvalid : ∀ symbol ∈ segments.filterMap Segment.reference?, symbol.Valid) :
    Group.endsBlank (writeSegments segments) = segments.getLast?.any Segment.endsBlank := by
  rcases List.eq_nil_or_concat segments with rfl | ⟨front, last, rfl⟩
  · rfl
  · rw [List.concat_eq_append] at hfilled hvalid ⊢
    rw [List.filterMap_append] at hvalid
    have hlast := (List.forall_mem_append.1 hfilled).2
    have hsymbol := (List.forall_mem_append.1 hvalid).2
    obtain ⟨before, hbefore⟩ := writeSegments_suffix front [last]
    rw [← hbefore, List.getLast?_append_of_ne_nil _ (List.cons_ne_nil last []),
      Text.endsBlank_append_of_ne_nil
        (writeSegments_ne_nil hlast hsymbol (List.cons_ne_nil last []))]
    cases last with
    | literal text =>
      rw [writeSegments, writeSegments, List.append_nil]
      rfl
    | ref symbol =>
      rw [writeSegments, writeSegments, List.append_nil,
        Content.endsBlank_writeReference (hsymbol symbol List.mem_cons_self)]
      rfl
    | forced symbol =>
      have hforced : Group.endsBlank ['>'] = false := by decide
      have hwritten := Content.endsBlank_append hforced (writeReference false symbol)
      rw [Content.endsBlank_writeReference (hsymbol symbol List.mem_cons_self)] at hwritten
      rw [writeSegments, writeSegments, List.append_nil]
      exact hwritten

end Written

namespace Alternative

variable {a : Alternative}

/-- A legible alternative is read from what it is written as. -/
theorem Legible.parse_print (h : a.Legible) (hvalid : ∀ symbol ∈ a.references, symbol.Valid) :
    parse a.print = a := by
  have hbegins : Group.beginsBlank a.print = false :=
    (beginsBlank_writeSegments h.separated.filled hvalid).trans h.begins
  have hends : Group.endsBlank a.print = false :=
    (endsBlank_writeSegments h.separated.filled hvalid).trans h.ends
  rw [parse, Text.trim_eq_self hbegins hends, print,
    readSegments_writeSegments h.separated h.unforced h.plain hvalid]

end Alternative

/-! ## What is read is legible -/

/-- A character is joined with a literal behind it, and stands alone otherwise. -/
theorem Segment.attach_literal_singleton (c : Char) (segments : List Segment) :
    (∃ text rest, segments = literal text :: rest ∧
        (literal [c]).attach segments = literal (c :: text) :: rest) ∨
      (∀ text ∈ segments.head?, ¬∃ next, text = literal next) ∧
        (literal [c]).attach segments = literal [c] :: segments := by
  cases segments with
  | nil => exact .inr ⟨fun _ hmem => absurd hmem (Option.not_mem_none _), rfl⟩
  | cons segment rest =>
    cases segment with
    | literal text => exact .inl ⟨text, rest, rfl, rfl⟩
    | ref symbol => exact .inr ⟨by simp, rfl⟩
    | forced symbol => exact .inr ⟨by simp, rfl⟩

theorem Spelled.ne_literal {text after : Text} {segment : Segment}
    (h : Spelled text segment after) (literal : Text) : segment ≠ .literal literal := by
  cases h with
  | ref hvalid hafter => exact Segment.noConfusion
  | forced hvalid hafter => exact Segment.noConfusion

/-- A literal that is read first is what the text begins with. -/
theorem exists_append_of_readSegments {text literal : Text} {segments : List Segment}
    (h : readSegments text = .literal literal :: segments) : ∃ rest, text = literal ++ rest := by
  induction text using readSegments.induct generalizing literal segments with
  | case1 =>
    rw [readSegments] at h
    cases h
  | case2 c rest segment after hread ih =>
    rw [readSegments_of_some hread, List.cons.injEq] at h
    exact absurd h.1 ((spelled_of_readReferenceSegment hread).ne_literal literal)
  | case3 c rest hread ih =>
    rw [readSegments_of_none hread] at h
    rcases Segment.attach_literal_singleton c (readSegments rest) with
      ⟨next, more, hrest, hattach⟩ | ⟨-, hattach⟩
    · obtain ⟨tail, rfl⟩ := ih hrest
      rw [hattach] at h
      cases h
      exact ⟨tail, rfl⟩
    · rw [hattach] at h
      cases h
      exact ⟨rest, rfl⟩

/-- A reference that is read first is what the text begins with. -/
theorem readReference_ne_none_of_readSegments {text : Text} {symbol : Symbol}
    {segments : List Segment} (h : readSegments text = .ref symbol :: segments) :
    readReference text ≠ none := by
  cases text with
  | nil =>
    rw [readSegments] at h
    cases h
  | cons c rest =>
    cases hread : readReferenceSegment (c :: rest) with
    | none =>
      rw [readSegments_of_none hread] at h
      rcases Segment.attach_literal_singleton c (readSegments rest) with
        ⟨next, more, -, hattach⟩ | ⟨-, hattach⟩
      · rw [hattach] at h
        cases h
      · rw [hattach] at h
        cases h
    | some found =>
      obtain ⟨segment, after⟩ := found
      rw [readSegments_of_some hread, List.cons.injEq] at h
      obtain ⟨rfl, -⟩ := h
      generalize c :: rest = text at hread
      cases spelled_of_readReferenceSegment hread with
      | ref hvalid hafter => exact readReference_writeReference_append hvalid _ after

theorem isChain_unforced_readSegments (text : Text) :
    (readSegments text).IsChain Segment.Unforced := by
  induction text using readSegments.induct with
  | case1 =>
    rw [readSegments]
    exact .nil
  | case2 c rest segment after hread ih =>
    rw [readSegments_of_some hread, List.isChain_cons]
    refine ⟨fun next _ => ?_, ih⟩
    cases segment with
    | literal text => exact absurd rfl ((spelled_of_readReferenceSegment hread).ne_literal text)
    | ref symbol => trivial
    | forced symbol => trivial
  | case3 c rest hread ih =>
    rw [readSegments_of_none hread]
    have hfilled := (canonical_readSegments rest).separated.filled
    rcases Segment.attach_literal_singleton c (readSegments rest) with
      ⟨text, more, hrest, hattach⟩ | ⟨-, hattach⟩
    · rw [hattach]
      rw [hrest] at ih hfilled
      have htext := Segment.ne_nil_of_ne_literal_nil (hfilled _ List.mem_cons_self)
      refine ih.imp_head ?_
      intro next hnext
      cases next with
      | literal next => trivial
      | ref symbol =>
        rw [Segment.Unforced, List.getLast?_cons_of_ne_nil htext]
        exact hnext
      | forced symbol => trivial
    · rw [hattach, List.isChain_cons]
      refine ⟨fun next hnext => ?_, ih⟩
      cases next with
      | literal next => trivial
      | ref symbol =>
        -- With `>` in front, the reference would have been read as a forced one.
        obtain ⟨more, hmore⟩ := List.head?_eq_some_iff.1 hnext
        intro hlast
        have hforced : c = '>' := by simpa using hlast
        subst hforced
        rw [readReferenceSegment, Option.map_eq_none_iff] at hread
        exact readReference_ne_none_of_readSegments hmore hread
      | forced symbol => trivial

theorem not_spellsReference_of_mem_readSegments {text literal : Text}
    (h : .literal literal ∈ readSegments text) : ¬literal.SpellsReference := by
  induction text using readSegments.induct generalizing literal with
  | case1 =>
    rw [readSegments] at h
    cases h
  | case2 c rest segment after hread ih =>
    rw [readSegments_of_some hread] at h
    rcases List.mem_cons.1 h with heq | hmem
    · exact absurd heq.symm ((spelled_of_readReferenceSegment hread).ne_literal literal)
    · exact ih hmem
  | case3 c rest hread ih =>
    rw [readSegments_of_none hread] at h
    rcases Segment.attach_literal_singleton c (readSegments rest) with
      ⟨text, more, hrest, hattach⟩ | ⟨-, hattach⟩
    · rw [hattach] at h
      rw [hrest] at ih
      rcases List.mem_cons.1 h with heq | hmem
      · cases heq
        obtain ⟨tail, rfl⟩ := exists_append_of_readSegments hrest
        exact Text.not_spellsReference_cons (ih List.mem_cons_self) hread
      · exact ih (List.mem_cons_of_mem _ hmem)
    · rw [hattach] at h
      rcases List.mem_cons.1 h with heq | hmem
      · cases heq
        exact Text.not_spellsReference_singleton c
      · exact ih hmem

namespace Alternative

theorem legible_parse (text : Text) : (parse text).Legible := by
  obtain ⟨hbegins, hends⟩ := ends_print_parse text
  have hseparated := (canonical_parse text).separated
  exact {
    separated := hseparated
    unforced := isChain_unforced_readSegments text.trim
    begins := (beginsBlank_writeSegments hseparated.filled valid_of_mem_readSegments).symm.trans
      hbegins
    ends := (endsBlank_writeSegments hseparated.filled valid_of_mem_readSegments).symm.trans hends
    plain := fun _ => not_spellsReference_of_mem_readSegments }

/-- The legible alternatives are those that are read from what they are written as. -/
theorem parse_print_eq_self_iff {a : Alternative}
    (hvalid : ∀ symbol ∈ a.references, symbol.Valid) : parse a.print = a ↔ a.Legible :=
  ⟨fun h => h ▸ legible_parse a.print, fun h => h.parse_print hvalid⟩

end Alternative

/-! ## Texts that are written as they were -/

namespace Text

/-- A reference that was not braced is not braced anew. -/
theorem writeReference_beginsGlued {braced : Bool} {symbol : Symbol} {after : Text}
    (hvalid : symbol.Valid) (hafter : braced = false → beginsIdentifier after = false)
    (h : ¬['$', '{'] <:+: writeReference braced symbol ++ after) :
    writeReference (beginsGlued (readSegments after)) symbol = writeReference braced symbol := by
  obtain ⟨c, identifier, rfl, -⟩ := hvalid.exists_identifier
  cases braced with
  | false => rw [beginsGlued_readSegments, hafter rfl]
  | true => exact absurd (List.prefix_append ['$', '{'] _).isInfix h

/-- Where no reference is braced, each is in the form it is written in. -/
theorem respelled_eq_self {text : Text} (h : ¬['$', '{'] <:+: text) : text.respelled = text := by
  induction text using readSegments.induct with
  | case1 => simp [respelled, readSegments, writeSegments]
  | case2 c rest segment after hread ih =>
    rw [respelled_of_some hread]
    generalize c :: rest = text at hread h
    cases spelled_of_readReferenceSegment hread with
    | ref hvalid hafter =>
      have hrest : after.respelled = after :=
        ih fun hpart => h (hpart.trans (List.suffix_append _ _).isInfix)
      rw [writeSegments, writeReference_beginsGlued hvalid hafter h, ← respelled, hrest]
    | forced hvalid hafter =>
      have hwritten := fun hpart => h (List.IsInfix.trans hpart (List.suffix_cons _ _).isInfix)
      have hrest : after.respelled = after :=
        ih fun hpart => hwritten (hpart.trans (List.suffix_append _ _).isInfix)
      rw [writeSegments, writeReference_beginsGlued hvalid hafter hwritten, ← respelled, hrest]
  | case3 c rest hread ih =>
    rw [respelled_of_none hread,
      ih fun hpart => h (hpart.trans (List.suffix_cons c rest).isInfix)]

end Text

namespace Alternative

theorem print_parse_of_unbraced {text : Text} (h : ¬['$', '{'] <:+: text) :
    (parse text).print = text.trim :=
  Text.respelled_eq_self fun hpart => h (hpart.trans text.trim_isInfix)

/-- An alternative with well-formed names is read from its written form exactly if it is legible.
Whatever is read is legible, and a text without `${` is written as it was read, without the
whitespace at its ends. -/
theorem reads_back_exactly :
    (∀ a : Alternative, (∀ symbol ∈ a.references, symbol.Valid) →
      (parse a.print = a ↔ a.Legible)) ∧
    ∀ text : Text, (parse text).Legible ∧
      (¬['$', '{'] <:+: text → (parse text).print = text.trim) :=
  ⟨fun _ hvalid => parse_print_eq_self_iff hvalid,
    fun text => ⟨legible_parse text, print_parse_of_unbraced⟩⟩

/-- An alternative with `$`, `>` and an open brace next to its references. -/
def crowded : Alternative :=
  ⟨[.literal ['5', '$', ' ', '>'], .forced (Symbol.ofIdentifier ['c']),
    .literal ['s', '$', '{', 'a'], .ref (Symbol.ofIdentifier ['b'])]⟩

theorem crowded_reads_back :
    (∀ symbol ∈ crowded.references, symbol.Valid) ∧
      crowded.print = "5$ >>$\x7bc\x7ds$\x7ba$b".toList ∧ crowded.Legible ∧
        ¬['$', '{'] <:+: " 5$ >>$c ".toList ∧
          (parse " 5$ >>$c ".toList).print = "5$ >>$c".toList := by
  have hvalid : ∀ symbol ∈ crowded.references, symbol.Valid := by decide +kernel
  have hunbraced : ¬['$', '{'] <:+: " 5$ >>$c ".toList := by decide +kernel
  refine ⟨hvalid, by decide +kernel, (reads_back_exactly.1 crowded hvalid).1 (by decide +kernel),
    hunbraced, ?_⟩
  rw [(reads_back_exactly.2 _).2 hunbraced]
  decide +kernel

end Alternative

end TextGrammar
