import Mathlib.Data.List.Forall2
import Mathlib.Logic.Relation
import TextGrammar.Grammar.Basic
import TextGrammar.Proofs.Statements

/-!
# Layout makes no difference

A source may be laid out in any way: its statements may have blank statements and comments between
them, and a line break may stand for a space.

* Desugaring does not see line breaks: it commutes with putting spaces for them, one statement at a
  time (`Group.replace_onOneLine`).
* `SameStatements` compares lists of statements up to their layout. A pass over groups keeps it
  (`SameStatements.desugarKind`), with the same numbers for the groups, and so do the definitions
  that are read in the end (`SameStatements.definitions_desugar`).
* `Reformatted` is one change of the layout of a source, and `Grammar.compileWith_of_reformatted` is
  the result for any number of them.
-/

namespace TextGrammar

/-! ## Spaces for line breaks -/

namespace Text

theorem isIdentifierChar_spaceForBreak (c : Char) :
    isIdentifierChar (spaceForBreak c) = isIdentifierChar c := by
  rcases spaceForBreak_cases c with h | ⟨h, hbreak⟩
  · rw [h]
  · have hsigns : c ∈ signs := by rcases hbreak with rfl | rfl <;> decide
    rw [h, isIdentifierChar_of_mem_signs hsigns, isIdentifierChar_of_mem_signs (by decide)]

theorem onOneLine_of_isInert {text : Text} (h : ∀ c ∈ text, isInert c = true) :
    text.onOneLine = text := by
  refine onOneLine_eq_self fun c hc => ?_
  have hinert := h c hc
  constructor
  · rintro rfl
    exact absurd hinert (by decide)
  · rintro rfl
    exact absurd hinert (by decide)

theorem map_onOneLine_modifyHead (c : Char) (pieces : List Text) :
    (pieces.modifyHead (List.cons c)).map onOneLine =
      (pieces.map onOneLine).modifyHead (List.cons (spaceForBreak c)) := by
  cases pieces <;> rfl

theorem splitOn_onOneLine {separator : Char} (h : Unicode.isWhitespace separator = false)
    (text : Text) :
    text.onOneLine.splitOn separator = (text.splitOn separator).map onOneLine := by
  induction text with
  | nil => rfl
  | cons c rest ih =>
    rw [onOneLine_cons]
    by_cases hc : c = separator
    · rw [hc, (spaceForBreak_eq_iff h).2 rfl, splitOn_cons_self, splitOn_cons_self, ih]
      rfl
    · rw [splitOn_cons_of_ne _ hc, splitOn_cons_of_ne _ (mt (spaceForBreak_eq_iff h).1 hc), ih,
        map_onOneLine_modifyHead]

end Text

theorem isComment_onOneLine (statement : Text) :
    isComment statement.onOneLine = isComment statement := by
  rw [isComment, isComment, Text.trimStart_onOneLine, Text.onOneLine, List.head?_map]
  cases statement.trimStart.head? with
  | none => rfl
  | some c =>
    have hsign : Unicode.isWhitespace '#' = false := by decide
    have hiff : Text.spaceForBreak c = '#' ↔ c = '#' := Text.spaceForBreak_eq_iff hsign
    simp only [Option.map_some, Option.some.injEq, decide_eq_decide]
    exact hiff

namespace Forest

/-- A forest with spaces for line breaks. -/
def onOneLine : Forest → Forest
  | nil => nil
  | char c rest => char (Text.spaceForBreak c) rest.onOneLine
  | group body rest => group body.onOneLine rest.onOneLine

theorem onOneLine_append (forest other : Forest) :
    (forest.append other).onOneLine = forest.onOneLine.append other.onOneLine := by
  induction forest with
  | nil => rfl
  | char c rest ih => simp only [append, onOneLine, ih]
  | group body rest _ ih => simp only [append, onOneLine, ih]

theorem beginsGlued_onOneLine (forest : Forest) :
    forest.onOneLine.beginsGlued = forest.beginsGlued := by
  cases forest with
  | char c rest => exact Text.isIdentifierChar_spaceForBreak c
  | nil => rfl
  | group body rest => rfl

theorem scan_onOneLine (kind : GroupKind) (text : Text) :
    scan kind text.onOneLine =
      ((scan kind text).1.onOneLine, (scan kind text).2.map onOneLine) := by
  obtain ⟨hopening, hclosing⟩ := Content.isWhitespace_delimiter kind
  induction text with
  | nil => rfl
  | cons c rest ih =>
    rw [Text.onOneLine_cons, scan, scan, ih]
    simp only [Text.spaceForBreak_eq_iff hopening, Text.spaceForBreak_eq_iff hclosing]
    split_ifs with hopens hcloses
    · cases (scan kind rest).2 with
      | nil => rfl
      | cons after outer => rfl
    · rfl
    · rfl

theorem rejoin_onOneLine (kind : GroupKind) (front : Forest) (behind : List Forest) :
    rejoin kind front.onOneLine (behind.map onOneLine) = (rejoin kind front behind).onOneLine := by
  have hclosing : Text.spaceForBreak kind.closing = kind.closing :=
    (Text.spaceForBreak_eq_iff (Content.isWhitespace_delimiter kind).2).2 rfl
  induction behind generalizing front with
  | nil => rfl
  | cons after outer ih =>
    rw [List.map_cons, rejoin, rejoin, ih, onOneLine_append, onOneLine, hclosing]

/-- Line breaks have no part in the pairs of delimiters. -/
theorem ofText_onOneLine (kind : GroupKind) (text : Text) :
    ofText kind text.onOneLine = (ofText kind text).onOneLine := by
  rw [ofText, scan_onOneLine]
  exact rejoin_onOneLine kind _ _

end Forest

namespace Group

theorem depthAfter_spaceForBreak (depth : Nat) (c : Char) :
    depthAfter depth (Text.spaceForBreak c) = depthAfter depth c := by
  rcases Text.spaceForBreak_cases c with h | ⟨h, rfl | rfl⟩
  · rw [h]
  · rfl
  · rfl

theorem splitTopLevel_onOneLine (depth : Nat) (text : Text) :
    splitTopLevel depth text.onOneLine = (splitTopLevel depth text).map Text.onOneLine := by
  have hbar : Unicode.isWhitespace '|' = false := by decide
  induction text generalizing depth with
  | nil => rfl
  | cons c rest ih =>
    rw [Text.onOneLine_cons, splitTopLevel, splitTopLevel, depthAfter_spaceForBreak, ih, ih]
    simp only [Text.spaceForBreak_eq_iff hbar]
    split_ifs with hcut
    · rfl
    · rw [Text.map_onOneLine_modifyHead]

theorem beginsBlank_onOneLine (text : Text) : beginsBlank text.onOneLine = beginsBlank text := by
  cases text with
  | nil => rfl
  | cons c rest => exact Text.isWhitespace_spaceForBreak c

theorem endsBlank_onOneLine (text : Text) : endsBlank text.onOneLine = endsBlank text := by
  have hlast : text.onOneLine.getLast? = text.getLast?.map Text.spaceForBreak := List.getLast?_map
  rw [endsBlank, endsBlank, hlast]
  cases text.getLast? with
  | none => rfl
  | some c => exact Text.isWhitespace_spaceForBreak c

theorem leadsBlank_onOneLine (body : Text) : leadsBlank body.onOneLine = leadsBlank body := by
  rw [leadsBlank, leadsBlank, splitTopLevel_onOneLine, List.all_map]
  exact congrArg (List.all _) (funext beginsBlank_onOneLine)

theorem trailsBlank_onOneLine (body : Text) : trailsBlank body.onOneLine = trailsBlank body := by
  rw [trailsBlank, trailsBlank, splitTopLevel_onOneLine, List.all_map]
  exact congrArg (List.all _) (funext endsBlank_onOneLine)

/-- What stands for a group has no line break, whatever its body has. -/
theorem reference_onOneLine {symbol : Symbol} (hvalid : symbol.Valid) (body : Text) (glued : Bool) :
    reference symbol body.onOneLine glued = (reference symbol body glued).onOneLine := by
  have hblank : ∀ blank : Bool, Text.onOneLine (if blank then [' '] else []) =
      if blank then [' '] else [] := by
    intro blank
    cases blank <;> rfl
  have hname : ∀ braced, (writeReference braced symbol).onOneLine = writeReference braced symbol :=
    fun _ => Text.onOneLine_of_isInert fun _ => isInert_of_mem_writeReference hvalid
  show _ ++ writeReference _ symbol ++ _ = Text.onOneLine (_ ++ writeReference _ symbol ++ _)
  rw [Text.onOneLine_append, Text.onOneLine_append, hname, hblank, hblank, leadsBlank_onOneLine,
    trailsBlank_onOneLine]

theorem production_onOneLine (kind : GroupKind) (n : Nat) (body : Text) :
    production kind (kind.symbol n) body.onOneLine =
      (production kind (kind.symbol n) body).onOneLine := by
  have hname : (kind.symbol n).name.onOneLine = (kind.symbol n).name :=
    Text.onOneLine_of_isInert fun _ => isInert_of_mem_name (kind.symbol_valid n)
  cases kind <;> simp only [production, Text.onOneLine_append, hname] <;> rfl

/-- Replacing the groups of a statement does not see its line breaks. -/
theorem replace_onOneLine (kind : GroupKind) (start : Nat) (forest : Forest) :
    replace kind start forest.onOneLine =
      ((replace kind start forest).1.onOneLine,
        (replace kind start forest).2.map Text.onOneLine) := by
  induction forest generalizing start with
  | nil => rfl
  | char c rest ih =>
    simp only [Forest.onOneLine, replace, ih]
    rfl
  | group body rest ihbody ihrest =>
    simp only [Forest.onOneLine, replace, ihbody, ihrest, List.length_map,
      Forest.beginsGlued_onOneLine, reference_onOneLine (kind.symbol_valid _),
      production_onOneLine, Text.onOneLine_append, List.map_append, List.map_cons]

end Group

/-! ## Statements up to their layout -/

/-- A statement that is passed over: it is blank, or a comment. -/
structure Idle (statement : Text) : Prop where
  unterminated : ';' ∉ statement
  passed : (∀ c ∈ statement, Unicode.isWhitespace c = true) ∨
    ∃ layout rest, statement = layout ++ '#' :: rest ∧
      ∀ c ∈ layout, Unicode.isWhitespace c = true

namespace Idle

variable {statement : Text}

theorem blank_or_comment (h : Idle statement) :
    (∀ c ∈ statement, Unicode.isWhitespace c = true) ∨ isComment statement = true := by
  refine h.passed.imp_right ?_
  rintro ⟨layout, rest, rfl, hlayout⟩
  have hsign : Unicode.isWhitespace '#' = false := by decide
  rw [isComment, Text.trimStart_append_of_blank hlayout,
    Text.trimStart_eq_self (by simpa using hsign)]
  rfl

/-- There are no groups in what is passed over. -/
theorem not_hasPair (h : Idle statement) (kind : GroupKind)
    (hcomment : isComment statement = false) : ¬kind.HasPair statement := by
  rcases h.blank_or_comment with hblank | hcomment'
  · refine GroupKind.not_hasPair_of_opening fun hmem => ?_
    have hopening := hblank _ hmem
    rw [(Content.isWhitespace_delimiter kind).1] at hopening
    cases hopening
  · rw [hcomment] at hcomment'
    cases hcomment'

theorem definition?_eq_none (h : Idle statement) : Table.definition? statement = none := by
  have hpassed : (!(Table.flatten statement).isEmpty &&
      (Table.flatten statement).head? ≠ some '#') = false := by
    rcases h.blank_or_comment with hblank | hcomment
    · have hempty : Table.flatten statement = [] := by
        have hall := List.dropWhile_eq_nil_iff.2 (Text.all_blank_onOneLine hblank)
        rw [Table.flatten_eq, Text.trim, Text.trimStart, hall]
        rfl
      rw [hempty]
      rfl
    · rw [← Table.head?_flatten_eq_iff] at hcomment
      simp [hcomment]
  simp only [Table.definition?, hpassed, Bool.false_eq_true, if_false]

end Idle

/-- Two lists have the same statements, up to those that are passed over and to line breaks. -/
inductive SameStatements : List Text → List Text → Prop where
  | nil : SameStatements [] []
  | same {statement statement' : Text} {rest rest' : List Text}
      (hline : statement.onOneLine = statement'.onOneLine) (hrest : SameStatements rest rest') :
      SameStatements (statement :: rest) (statement' :: rest')
  | added {statement : Text} {statements rest' : List Text} (hidle : Idle statement)
      (hrest : SameStatements statements rest') : SameStatements statements (statement :: rest')

namespace SameStatements

open TextGrammar.Group

variable {statements statements' others others' : List Text}

theorem of_map_onOneLine (h : statements.map Text.onOneLine = statements'.map Text.onOneLine) :
    SameStatements statements statements' := by
  rw [← List.forall₂_eq_eq_eq, List.forall₂_map_left_iff, List.forall₂_map_right_iff] at h
  induction h with
  | nil => exact .nil
  | cons hline _ ih => exact .same hline ih

theorem refl (statements : List Text) : SameStatements statements statements :=
  of_map_onOneLine rfl

theorem append (h : SameStatements statements statements')
    (hothers : SameStatements others others') :
    SameStatements (statements ++ others) (statements' ++ others') := by
  induction h with
  | nil => exact hothers
  | same hline _ ih => exact .same hline ih
  | added hidle _ ih => exact .added hidle ih

/-- Both lists have the same groups with the same numbers. -/
theorem replaceAll (kind : GroupKind) (h : SameStatements statements statements') (start : Nat) :
    SameStatements (replaceAll kind start statements).1 (replaceAll kind start statements').1 ∧
      (replaceAll kind start statements).2.map Text.onOneLine =
        (replaceAll kind start statements').2.map Text.onOneLine := by
  induction h generalizing start with
  | nil => exact ⟨.nil, rfl⟩
  | @same statement statement' rest rest' hline _ ih =>
    have hcomment : isComment statement' = isComment statement := by
      rw [← isComment_onOneLine, ← hline, isComment_onOneLine]
    rw [replaceAll_cons, replaceAll_cons, hcomment]
    cases isComment statement with
    | true =>
      obtain ⟨hrest, hminted⟩ := ih start
      exact ⟨.same hline hrest, hminted⟩
    | false =>
      have hforest := congrArg (Forest.ofText kind) hline
      rw [Forest.ofText_onOneLine, Forest.ofText_onOneLine] at hforest
      have hreplaced := congrArg (replace kind start) hforest
      rw [replace_onOneLine, replace_onOneLine, Prod.mk.injEq] at hreplaced
      have hlength := congrArg List.length hreplaced.2
      rw [List.length_map, List.length_map] at hlength
      obtain ⟨hrest, hminted⟩ :=
        ih (start + (replace kind start (Forest.ofText kind statement)).2.length)
      simp only [Bool.false_eq_true, if_false, List.map_append, ← hlength]
      exact ⟨.same hreplaced.1 hrest, congrArg₂ (· ++ ·) hreplaced.2 hminted⟩
  | @added statement _ rest' hidle _ ih =>
    obtain ⟨hrest, hminted⟩ := ih start
    have hfront :=
      replaceAll_append (List.forall_mem_singleton.2 (hidle.not_hasPair kind)) start rest'
    rw [List.singleton_append] at hfront
    rw [hfront]
    exact ⟨.added hidle hrest, hminted⟩

variable {source source' : Text}

/-- A pass over the groups of a kind keeps the layout apart. -/
theorem desugarKind (kind : GroupKind)
    (h : SameStatements (source.splitOn ';') (source'.splitOn ';')) :
    SameStatements ((desugarKind kind source).splitOn ';')
      ((desugarKind kind source').splitOn ';') := by
  obtain ⟨hleft, hminted⟩ := h.replaceAll kind 0
  rw [split_desugarKind, split_desugarKind]
  refine hleft.append (of_map_onOneLine ?_)
  have hmap := congrArg (List.map (' ' :: ·)) hminted
  rw [List.map_map, List.map_map] at hmap ⊢
  exact hmap

theorem filterMap_definition? (h : SameStatements statements statements') :
    statements.filterMap Table.definition? = statements'.filterMap Table.definition? := by
  induction h with
  | nil => rfl
  | @same statement statement' _ _ hline _ ih =>
    have hflatten : Table.flatten statement = Table.flatten statement' := by
      rw [Table.flatten_eq, Table.flatten_eq, hline]
    rw [List.filterMap_cons, List.filterMap_cons, Table.definition?, Table.definition?, hflatten,
      ih]
  | added hidle _ ih => rw [List.filterMap_cons_none hidle.definition?_eq_none, ih]

/-- The same definitions are read in the end. -/
theorem definitions_desugar (h : SameStatements (source.splitOn ';') (source'.splitOn ';')) :
    Table.definitions (desugar source) = Table.definitions (desugar source') := by
  rw [Table.definitions_eq_filterMap, Table.definitions_eq_filterMap]
  exact ((h.desugarKind .optional).desugarKind .plain).filterMap_definition?

end SameStatements

/-! ## The result -/

/-- One change of the layout of a source: a statement that is passed over is put between two
statements, in front of the first or behind the last, or a space is put for a line break. -/
inductive Reformatted : Text → Text → Prop where
  | between {statement : Text} (front back : Text) (hidle : Idle statement) :
      Reformatted (front ++ ';' :: back) (front ++ ';' :: (statement ++ ';' :: back))
  | first {statement : Text} (source : Text) (hidle : Idle statement) :
      Reformatted source (statement ++ ';' :: source)
  | last {statement : Text} (source : Text) (hidle : Idle statement) :
      Reformatted source (source ++ ';' :: statement)
  | line {c : Char} (front back : Text) (hbreak : c = '\r' ∨ c = '\n') :
      Reformatted (front ++ c :: back) (front ++ ' ' :: back)

theorem Reformatted.sameStatements {source source' : Text} (h : Reformatted source source') :
    SameStatements (source.splitOn ';') (source'.splitOn ';') := by
  have hidle : ∀ {statement : Text}, Idle statement → ∀ {statements others : List Text},
      SameStatements statements others →
        SameStatements statements (statement.splitOn ';' ++ others) := by
    intro statement hidle statements others hothers
    rw [List.splitOn_eq_singleton hidle.unterminated]
    exact .added hidle hothers
  cases h with
  | between front back h =>
    rw [List.splitOn_append_cons_self, List.splitOn_append_cons_self, List.splitOn_append_cons_self]
    exact (SameStatements.refl _).append (hidle h (.refl _))
  | first source h =>
    rw [List.splitOn_append_cons_self]
    exact hidle h (.refl _)
  | last source h =>
    have hbehind := (SameStatements.refl (source.splitOn ';')).append (hidle h (.refl []))
    rw [List.append_nil, List.append_nil] at hbehind
    rw [List.splitOn_append_cons_self]
    exact hbehind
  | line front back hbreak =>
    refine SameStatements.of_map_onOneLine ?_
    have hend : Unicode.isWhitespace ';' = false := by decide
    rw [← Text.splitOn_onOneLine hend, ← Text.splitOn_onOneLine hend, Text.onOneLine_append,
      Text.onOneLine_append, Text.onOneLine_cons, Text.onOneLine_cons, Text.spaceForBreak,
      if_pos hbreak]
    rfl

/-- Nothing that a grammar is compiled to, or that is found wrong with its source, depends on the
layout of the source: statements that are passed over may be put in and left out anywhere, and
spaces may stand for line breaks. -/
theorem Grammar.compileWith_of_reformatted (limits : Limits) {source source' : Text}
    (h : Relation.EqvGen Reformatted source source') :
    Grammar.compileWith limits source = Grammar.compileWith limits source' := by
  induction h with
  | rel source source' hstep =>
    rw [compileWith, compileWith, Table.parse, Table.parse,
      hstep.sameStatements.definitions_desugar]
  | refl _ => rfl
  | symm _ _ _ ih => exact ih.symm
  | trans _ _ _ _ _ ih ih' => exact ih.trans ih'

/-- A source that begins with a comment of stray delimiters and breaks a line in a group. -/
def spreadSource : Text :=
  "# ) [ $s =;$s = a[b\nc]d".toList

/-- The same without the comment and the line break, and with a blank statement at the end. -/
def compactSource : Text :=
  "$s = a[b c]d; \r".toList

/-- The grammar of both. -/
def compactGrammar : Grammar where
  table := {
    rows := [
      (.start, ⟨[⟨[.literal ['a'], .ref (GroupKind.optional.symbol 0), .literal ['d']]⟩]⟩),
      (GroupKind.optional.symbol 0, ⟨[⟨[]⟩, ⟨[.ref (GroupKind.plain.symbol 0)]⟩]⟩),
      (GroupKind.plain.symbol 0, ⟨[⟨[.literal ['b', ' ', 'c']]⟩]⟩)]
    forced := [] }
  start := .start
  limits := .standard

theorem Grammar.compileWith_spreadSource :
    Relation.EqvGen Reformatted spreadSource compactSource ∧
      compileWith .standard spreadSource = .ok compactGrammar ∧
      compileWith .standard compactSource = .ok compactGrammar := by
  have hcomment : Reformatted "$s = a[b\nc]d".toList spreadSource :=
    .first _ ⟨by decide, Or.inr ⟨[], " ) [ $s =".toList, rfl, List.forall_mem_nil _⟩⟩
  have hline : Reformatted "$s = a[b\nc]d".toList "$s = a[b c]d".toList :=
    .line "$s = a[b".toList "c]d".toList (Or.inr rfl)
  have hblanks : ∀ c ∈ [' ', '\r'], Unicode.isWhitespace c = true :=
    List.forall_mem_cons.2 ⟨by decide, List.forall_mem_singleton.2 (by decide)⟩
  have hblank : Reformatted "$s = a[b c]d".toList compactSource :=
    .last _ ⟨by decide, Or.inl hblanks⟩
  have hsame : Relation.EqvGen Reformatted spreadSource compactSource :=
    .trans _ _ _ (.symm _ _ (.rel _ _ hcomment))
      (.trans _ _ _ (.rel _ _ hline) (.rel _ _ hblank))
  have hspread : compileWith .standard spreadSource = .ok compactGrammar := by decide +kernel
  refine ⟨hsame, hspread, ?_⟩
  rw [← compileWith_of_reformatted .standard hsame]
  exact hspread

end TextGrammar
