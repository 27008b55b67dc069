import Mathlib.Data.List.Induction
import Mathlib.Data.List.ReduceOption
import TextGrammar.Proofs.Statements

/-!
# Which sources are read as tables

Reading goes through the statements of a source in their order and stops at the first one that
breaks a rule.

* `Table.Written` says which definitions are written in a source, without reading it.
* `Definition.Breaks` has the rules for one definition behind others, each with its error, and
  `Table.KeepsRules` is that no definition of a list breaks one.
* `Table.addTo_ofDefinitions` and `Table.addTo_of_breaks` are one step of reading, and
  `Table.foldlM_ofDefinitions` is a whole run of them.
* `Table.parse_accepts_exactly` is the result.
-/

namespace TextGrammar

/-! ## What is written in a source -/

/-- What a statement says that stands on one line and has no whitespace at its ends. -/
inductive Definition.States : Text → Option Definition → Prop where
  | blank : States [] none
  | comment (rest : Text) : States ('#' :: rest) none
  | parts {before : Text} (after : Text) (hcomment : before.head? ≠ some '#')
      (hbefore : '=' ∉ before) : States (before ++ '=' :: after) (some ⟨before.trim, after.trim⟩)
  | whole {line : Text} (hblank : line ≠ []) (hcomment : line.head? ≠ some '#')
      (hequals : '=' ∉ line) : States line (some ⟨line, []⟩)

namespace Table

/-- The definitions that are written in a source, in their order: those of the pieces that joined
by `;` are the source. -/
def Written (source : Text) (written : List Definition) : Prop :=
  ∃ (pieces : List Text) (found : List (Option Definition)),
    pieces ≠ [] ∧ (∀ piece ∈ pieces, ';' ∉ piece) ∧ [';'].intercalate pieces = source ∧
      List.Forall₂ (fun piece stated => Definition.States piece.onOneLine.trim stated) pieces
        found ∧
        written = found.reduceOption

theorem states_iff {piece : Text} {stated : Option Definition} :
    Definition.States piece.onOneLine.trim stated ↔ stated = definition? piece := by
  rw [definition?, flatten_eq]
  generalize piece.onOneLine.trim = line
  constructor
  · intro h
    cases h with
    | blank => rfl
    | comment rest => simp
    | @parts before after hcomment hbefore =>
      have hhead : (before ++ '=' :: after).head? ≠ some '#' := by
        cases before with
        | nil => simp
        | cons c before => exact hcomment
      have hkept : (!(before ++ '=' :: after).isEmpty &&
          (before ++ '=' :: after).head? ≠ some '#') = true := by
        rw [Bool.and_eq_true, decide_eq_true_iff]
        exact ⟨by simp, hhead⟩
      rw [if_pos hkept, Definition.ofStatement, Text.splitFirst?_append_cons after hbefore]
    | whole hblank hcomment hequals =>
      simp [hblank, hcomment, Definition.ofStatement, Text.splitFirst?_eq_none hequals]
  · rintro rfl
    cases line with
    | nil => exact .blank
    | cons c rest =>
      by_cases hcomment : c = '#'
      · subst hcomment
        exact .comment rest
      · have hhead : (c :: rest).head? ≠ some '#' := by simpa using hcomment
        simp only [List.isEmpty_cons, Bool.not_false, hhead, ne_eq, not_false_eq_true, decide_true,
          Bool.and_self, if_true]
        by_cases hequals : '=' ∈ c :: rest
        · obtain ⟨before, after, heq, hbefore⟩ := List.eq_append_cons_of_mem hequals
          rw [heq] at hhead ⊢
          rw [Definition.ofStatement, Text.splitFirst?_append_cons after hbefore]
          refine .parts after ?_ hbefore
          cases before with
          | nil => simp
          | cons d before => exact hhead
        · rw [Definition.ofStatement, Text.splitFirst?_eq_none hequals]
          exact .whole (List.cons_ne_nil c rest) hhead hequals

theorem reduceOption_map_definition? (pieces : List Text) :
    (pieces.map definition?).reduceOption = pieces.filterMap definition? := by
  rw [List.reduceOption, List.filterMap_map]
  rfl

/-- Only the definitions that reading finds are written in a source. -/
theorem written_iff {source : Text} {found : List Definition} :
    Written source found ↔ found = definitions source := by
  rw [definitions_eq_filterMap, ← reduceOption_map_definition?]
  constructor
  · rintro ⟨pieces, stated, hne, hpieces, rfl, hstated, rfl⟩
    rw [List.splitOn_intercalate ';' hpieces hne]
    simp only [states_iff] at hstated
    have hmap : stated = pieces.map definition? := by
      rw [← List.forall₂_eq_eq_eq, List.forall₂_map_right_iff]
      exact hstated.flip
    rw [hmap]
  · rintro rfl
    refine ⟨source.splitOn ';', (source.splitOn ';').map definition?, List.splitOn_ne_nil _ source,
      fun piece => Text.not_mem_of_mem_splitOn, List.intercalate_splitOn ';', ?_, rfl⟩
    rw [List.forall₂_map_right_iff, List.forall₂_same]
    exact fun piece _ => states_iff.2 rfl

end Table

/-! ## The rules -/

namespace Definition

/-- A definition breaks a rule behind some earlier ones. A rule counts only if those in front of it
are kept. -/
inductive Breaks (earlier : List Definition) (definition : Definition) : GrammarError → Prop where
  /-- The left side is not a symbol. -/
  | name (hname : Symbol.isName definition.name = false) :
      Breaks earlier definition (.invalidSymbolName definition.name)
  /-- There is no content, and the symbol is not one of a group. -/
  | content (hname : Symbol.isName definition.name = true) (hempty : definition.content = [])
      (hauthor : (Symbol.mk definition.name).isSynthetic = false) :
      Breaks earlier definition (.emptyProduction ⟨definition.name⟩)
  /-- An earlier definition has the same left side. -/
  | again (hname : Symbol.isName definition.name = true)
      (hcontent : definition.content ≠ [] ∨ (Symbol.mk definition.name).isSynthetic = true)
      (hearlier : definition.name ∈ earlier.map Definition.name) :
      Breaks earlier definition (.duplicateSymbol ⟨definition.name⟩)

variable {earlier : List Definition} {definition : Definition}

theorem allowed_of_content (definition : Definition)
    (h : definition.content ≠ [] ∨ (Symbol.mk definition.name).isSynthetic = true) :
    (definition.content.isEmpty && !(Symbol.mk definition.name).isSynthetic) = false := by
  rcases h with hne | hsynthetic
  · simp [hne]
  · simp [hsynthetic]

/-- What keeps all rules. -/
theorem forall_not_breaks_iff :
    (∀ error, ¬definition.Breaks earlier error) ↔
      Symbol.isName definition.name = true ∧
        (definition.content ≠ [] ∨ (Symbol.mk definition.name).isSynthetic = true) ∧
          definition.name ∉ earlier.map Definition.name := by
  constructor
  · intro h
    have hname : Symbol.isName definition.name = true := by
      rw [← Bool.not_eq_false]
      exact fun hfalse => h _ (.name hfalse)
    have hcontent : definition.content ≠ [] ∨ (Symbol.mk definition.name).isSynthetic = true := by
      by_contra hnot
      rw [not_or, not_not, Bool.not_eq_true] at hnot
      exact h _ (.content hname hnot.1 hnot.2)
    exact ⟨hname, hcontent, fun hearlier => h _ (.again hname hcontent hearlier)⟩
  · rintro ⟨hname, hcontent, hnew⟩ error h
    cases h with
    | name hfalse =>
      rw [hname] at hfalse
      cases hfalse
    | content _ hempty hauthor =>
      rcases hcontent with hne | hsynthetic
      · exact hne hempty
      · rw [hauthor] at hsynthetic
        cases hsynthetic
    | again _ _ hearlier => exact hnew hearlier

/-- The row that a definition becomes: one alternative for each piece of the content between `|`. -/
def row (definition : Definition) : Symbol × Production :=
  (⟨definition.name⟩, ⟨(definition.content.splitOn '|').map Alternative.parse⟩)

end Definition

namespace Table

/-- No definition of a list breaks a rule behind those in front of it. -/
def KeepsRules (written : List Definition) : Prop :=
  ∀ earlier definition later, written = earlier ++ definition :: later →
    ∀ error, ¬definition.Breaks earlier error

variable {written : List Definition} {definition : Definition}

theorem keepsRules_nil : KeepsRules [] := by
  intro earlier definition later h
  simp at h

theorem keepsRules_concat :
    KeepsRules (written ++ [definition]) ↔
      KeepsRules written ∧ ∀ error, ¬definition.Breaks written error := by
  constructor
  · intro h
    refine ⟨fun earlier other later heq => h earlier other (later ++ [definition]) ?_,
      h written definition [] rfl⟩
    rw [heq, List.append_assoc, List.cons_append]
  · rintro ⟨hfront, hlast⟩ earlier other later heq
    rcases List.eq_nil_or_concat later with rfl | ⟨later, last, rfl⟩
    · obtain ⟨rfl, hother⟩ := List.append_inj' heq rfl
      cases hother
      exact hlast
    · rw [List.concat_eq_append, ← List.cons_append, ← List.append_assoc] at heq
      exact hfront earlier other later (List.append_inj' heq rfl).1

/-- The rules for a list of definitions as a whole. -/
theorem keepsRules_iff :
    KeepsRules written ↔
      (∀ d ∈ written, Symbol.isName d.name = true) ∧
        (∀ d ∈ written, d.content ≠ [] ∨ (Symbol.mk d.name).isSynthetic = true) ∧
          (written.map Definition.name).Nodup := by
  induction written using List.reverseRecOn with
  | nil => simp [keepsRules_nil]
  | append_singleton front last ih =>
    rw [keepsRules_concat, ih, Definition.forall_not_breaks_iff, List.map_append,
      List.map_singleton, List.nodup_append_comm, List.singleton_append, List.nodup_cons]
    simp only [List.forall_mem_append, List.forall_mem_singleton]
    tauto

/-- Where a rule is broken, there is a first definition that breaks one. -/
theorem exists_of_not_keepsRules (h : ¬KeepsRules written) :
    ∃ earlier definition later error, written = earlier ++ definition :: later ∧
      KeepsRules earlier ∧ definition.Breaks earlier error := by
  induction written using List.reverseRecOn with
  | nil => exact absurd keepsRules_nil h
  | append_singleton front last ih =>
    by_cases hfront : KeepsRules front
    · have hlast : ∃ error, last.Breaks front error := by
        by_contra hnone
        exact h (keepsRules_concat.2 ⟨hfront, not_exists.1 hnone⟩)
      obtain ⟨error, hbreaks⟩ := hlast
      exact ⟨front, last, [], error, rfl, hfront, hbreaks⟩
    · obtain ⟨earlier, first, later, error, rfl, hearlier, hbreaks⟩ := ih hfront
      exact ⟨earlier, first, later ++ [last], error, by simp, hearlier, hbreaks⟩

/-! ## Reading -/

/-- The table with one row for each definition. -/
def ofDefinitions (written : List Definition) : Table where
  rows := written.map Definition.row
  forced := ((written.map Definition.row).filter fun row => row.2.hasForced).map Prod.fst

theorem mem_symbols_ofDefinitions {symbol : Symbol} :
    symbol ∈ (ofDefinitions written).symbols ↔
      symbol.name ∈ written.map Definition.name := by
  have hsymbols : (ofDefinitions written).symbols =
      (written.map Definition.name).map Symbol.mk := by
    simp [ofDefinitions, symbols, Definition.row, Function.comp_def]
  rw [hsymbols, ← List.mem_map_of_injective Symbol.name_injective, List.map_map]
  simp [Function.comp_def]

/-- A definition that keeps the rules becomes the last row. -/
theorem addTo_ofDefinitions (h : ∀ error, ¬definition.Breaks written error) :
    definition.addTo (ofDefinitions written) =
      .ok (ofDefinitions (written ++ [definition])) := by
  obtain ⟨hname, hcontent, hnew⟩ := Definition.forall_not_breaks_iff.1 h
  have hundefined : Symbol.mk definition.name ∉ (ofDefinitions written).symbols := by
    rw [mem_symbols_ofDefinitions]
    exact hnew
  have hinsert := insert_of_not_mem hundefined (Production.parse definition.content)
  have hrow : definition.row = (⟨definition.name⟩, Production.parse definition.content) := rfl
  rw [Definition.addTo, Symbol.parse?, if_pos hname]
  simp only [definition.allowed_of_content hcontent, Bool.false_eq_true, if_false, hinsert]
  by_cases hforced : (Production.parse definition.content).hasForced
  · simp [ofDefinitions, hrow, hforced]
  · simp [ofDefinitions, hrow, hforced]

theorem addTo_of_breaks {error : GrammarError} (h : definition.Breaks written error) :
    definition.addTo (ofDefinitions written) = .error error := by
  unfold Definition.addTo
  cases h with
  | name hname => simp [Symbol.parse?, hname]
  | content hname hempty hauthor => simp [Symbol.parse?, hname, hempty, hauthor]
  | again hname hcontent hearlier =>
    have hdefined : (ofDefinitions written).contains ⟨definition.name⟩ = true :=
      contains_iff_mem_symbols.2 (mem_symbols_ofDefinitions.2 hearlier)
    simp [Symbol.parse?, hname, definition.allowed_of_content hcontent, insert, hdefined]

/-- Definitions that keep the rules are added one after the other. -/
theorem foldlM_ofDefinitions {more : List Definition} (h : KeepsRules (written ++ more)) :
    more.foldlM (fun table d => d.addTo table) (ofDefinitions written) =
      Except.ok (ofDefinitions (written ++ more)) := by
  induction more generalizing written with
  | nil => rw [List.append_nil]; rfl
  | cons definition rest ih =>
    rw [List.foldlM_cons, addTo_ofDefinitions (h written definition rest rfl)]
    rw [List.append_cons] at h
    have hrest := ih h
    rw [List.append_assoc, List.singleton_append] at hrest
    exact hrest

theorem foldlM_addTo_empty (h : KeepsRules written) :
    written.foldlM (fun table d => d.addTo table) empty = Except.ok (ofDefinitions written) :=
  @foldlM_ofDefinitions [] written h

theorem parse_of_keepsRules {source : Text} (h : KeepsRules (definitions source)) :
    parse source = if Symbol.start.name ∈ (definitions source).map Definition.name
      then .ok (ofDefinitions (definitions source)) else .error .missingStartSymbol := by
  rw [parse, foldlM_addTo_empty h]
  simp only [← mem_symbols_ofDefinitions, ← contains_iff_mem_symbols]
  rfl

/-- The first definition that breaks a rule ends the reading with its error. -/
theorem parse_of_breaks {source : Text} {earlier later : List Definition} {error : GrammarError}
    (hwritten : definitions source = earlier ++ definition :: later)
    (hearlier : KeepsRules earlier) (h : definition.Breaks earlier error) :
    parse source = .error error := by
  rw [parse, hwritten, List.foldlM_append, foldlM_addTo_empty hearlier]
  simp only [bind, Except.bind, List.foldlM_cons, addTo_of_breaks h]

/-- The error of a list of definitions that is not read as a table: that of the first definition
that breaks a rule, and if there is none, that `$s` is not defined. -/
inductive Reports (written : List Definition) : GrammarError → Prop where
  | broken {earlier later : List Definition} {definition : Definition} {error : GrammarError}
      (hwritten : written = earlier ++ definition :: later)
      (hearlier : KeepsRules earlier) (hbreaks : definition.Breaks earlier error) :
      Reports written error
  | startless (hrules : KeepsRules written)
      (hstart : Symbol.start.name ∉ written.map Definition.name) :
      Reports written .missingStartSymbol

theorem parse_eq_error_iff {source : Text} {error : GrammarError} :
    parse source = .error error ↔ Reports (definitions source) error := by
  constructor
  · intro h
    by_cases hrules : KeepsRules (definitions source)
    · rw [parse_of_keepsRules hrules] at h
      split_ifs at h with hstart
      cases h
      exact .startless hrules hstart
    · obtain ⟨earlier, definition, later, error', hwritten, hearlier, hbreaks⟩ :=
        exists_of_not_keepsRules hrules
      rw [parse_of_breaks hwritten hearlier hbreaks] at h
      cases h
      exact .broken hwritten hearlier hbreaks
  · intro h
    cases h with
    | broken hwritten hearlier hbreaks => exact parse_of_breaks hwritten hearlier hbreaks
    | startless hrules hstart => rw [parse_of_keepsRules hrules, if_neg hstart]

theorem parse_eq_ok_iff {source : Text} {table : Table} :
    parse source = .ok table ↔ KeepsRules (definitions source) ∧
      Symbol.start.name ∈ (definitions source).map Definition.name ∧
        table = ofDefinitions (definitions source) := by
  by_cases hrules : KeepsRules (definitions source)
  · rw [parse_of_keepsRules hrules]
    split_ifs with hstart
    · simp [hrules, hstart, eq_comm]
    · simp [hstart]
  · obtain ⟨earlier, definition, later, error, hwritten, hearlier, hbreaks⟩ :=
      exists_of_not_keepsRules hrules
    simp [parse_of_breaks hwritten hearlier hbreaks, hrules]

/-! ## The result -/

/-- A source is read as a table exactly if the left sides of the definitions that are written in it
are symbols, each has a content or is the symbol of a group, no two are the same, and `$s` is among
them. The table has their rows in their order then. Otherwise the error is that of the first
definition that breaks a rule behind those in front of it, and that `$s` is missing if there is
none. -/
theorem parse_accepts_exactly (source : Text) :
    ∃ written, (∀ found, Written source found ↔ found = written) ∧
      ((∃ table, parse source = .ok table) ↔
        (∀ d ∈ written, Symbol.isName d.name = true) ∧
          (∀ d ∈ written, d.content ≠ [] ∨ (Symbol.mk d.name).isSynthetic = true) ∧
            (written.map Definition.name).Nodup ∧ ['$', 's'] ∈ written.map Definition.name) ∧
      (∀ table, parse source = .ok table → table.rows = written.map fun d =>
        (⟨d.name⟩, ⟨(d.content.splitOn '|').map Alternative.parse⟩)) ∧
      ∀ error, parse source = .error error ↔ Reports written error := by
  refine ⟨definitions source, fun _ => written_iff, ?_, ?_, fun _ => parse_eq_error_iff⟩
  · simp only [parse_eq_ok_iff, keepsRules_iff, exists_and_left, exists_eq, and_true, and_assoc]
    rfl
  · intro table h
    obtain ⟨-, -, rfl⟩ := parse_eq_ok_iff.1 h
    rfl

end Table

end TextGrammar
