import TextGrammar.Proofs.Parsing
import TextGrammar.Proofs.Groups.Projection

/-!
# Statements and the definitions they are read as

Every statement of a source is read by itself (`Table.definitions_eq_filterMap`). One that begins
with a name and `=`, whatever layout stands in front of it, is read as the definition of that name
by all that stands behind (`Table.definition?_of_name`), and whitespace around a content makes no
difference (`Production.parse_trim`). A table that was read has a row for each definition, in their
order (`Table.exists_entries_of_parse`, and back `Table.exists_parse_of_entries`).

`Settled` holds of contents that are written as they are read: entries with such contents are found
again in the source they are joined to (`definitions_printEntries`), and there is nothing to desugar
in it. The contents of a source without groups are settled (`Table.settled_of_mem_definitions`).
-/

namespace TextGrammar

namespace Text

theorem spaceForBreak_cases (c : Char) :
    spaceForBreak c = c ∨ spaceForBreak c = ' ' ∧ (c = '\r' ∨ c = '\n') := by
  unfold spaceForBreak
  split_ifs with h
  · exact Or.inr ⟨rfl, h⟩
  · exact Or.inl rfl

theorem spaceForBreak_eq_self {c : Char} (h : c ≠ '\r' ∧ c ≠ '\n') : spaceForBreak c = c :=
  if_neg (not_or.2 h)

theorem isWhitespace_spaceForBreak (c : Char) :
    Unicode.isWhitespace (spaceForBreak c) = Unicode.isWhitespace c := by
  rcases spaceForBreak_cases c with h | ⟨h, rfl | rfl⟩
  · rw [h]
  · decide
  · decide

/-- Whatever is not whitespace is not touched. -/
theorem spaceForBreak_eq_iff {c d : Char} (h : Unicode.isWhitespace d = false) :
    spaceForBreak c = d ↔ c = d := by
  rcases spaceForBreak_cases c with hc | ⟨hc, hbreak⟩
  · rw [hc]
  · have hspace : ' ' ≠ d := ne_of_isWhitespace (by decide) h
    have hne : c ≠ d := ne_of_isWhitespace (by rcases hbreak with rfl | rfl <;> decide) h
    rw [hc]
    exact iff_of_false hspace hne

theorem onOneLine_cons (c : Char) (rest : Text) :
    onOneLine (c :: rest) = spaceForBreak c :: onOneLine rest :=
  rfl

theorem onOneLine_append (text rest : Text) :
    (text ++ rest).onOneLine = text.onOneLine ++ rest.onOneLine :=
  List.map_append

theorem onOneLine_eq_self {text : Text} (h : ∀ c ∈ text, c ≠ '\r' ∧ c ≠ '\n') :
    text.onOneLine = text :=
  (List.map_congr_left fun c hc => spaceForBreak_eq_self (h c hc)).trans (List.map_id text)

theorem mem_onOneLine {text : Text} {c : Char} (h : c ∈ text.onOneLine) :
    (c = ' ' ∨ c ∈ text) ∧ c ≠ '\r' ∧ c ≠ '\n' := by
  obtain ⟨d, hd, rfl⟩ := List.mem_map.1 h
  unfold spaceForBreak
  split_ifs with hbreak
  · exact ⟨Or.inl rfl, by decide, by decide⟩
  · exact ⟨Or.inr hd, not_or.1 hbreak⟩

theorem all_blank_onOneLine {text : Text} (h : ∀ c ∈ text, Unicode.isWhitespace c = true) :
    ∀ c ∈ text.onOneLine, Unicode.isWhitespace c = true := by
  intro c hc
  rcases (mem_onOneLine hc).1 with rfl | hc
  · decide
  · exact h c hc

theorem trimStart_onOneLine (text : Text) :
    text.onOneLine.trimStart = text.trimStart.onOneLine := by
  have hblank : Unicode.isWhitespace ∘ spaceForBreak = Unicode.isWhitespace :=
    funext isWhitespace_spaceForBreak
  rw [trimStart, onOneLine, List.dropWhile_map, hblank]
  rfl

theorem trimStart_append_of_blank {front : Text} (h : ∀ c ∈ front, Unicode.isWhitespace c = true)
    (rest : Text) : trimStart (front ++ rest) = trimStart rest :=
  List.dropWhile_append_of_pos h

theorem head?_trimEnd_of_ne {c : Char} {rest : Text} (h : Unicode.isWhitespace c = false) :
    (trimEnd (c :: rest)).head? = some c := by
  rw [trimEnd_cons, h, if_neg (by simp), List.head?_cons]

/-- Spaces for line breaks take marks away. -/
theorem marks_onOneLine_sublist (text : Text) : text.onOneLine.marks.Sublist text.marks := by
  induction text with
  | nil => exact List.Sublist.refl _
  | cons c rest ih =>
    rw [marks_cons]
    by_cases hbreak : c = '\r' ∨ c = '\n'
    · have hspace : onOneLine (c :: rest) = ' ' :: onOneLine rest := by
        rw [onOneLine_cons, spaceForBreak, if_pos hbreak]
      have hinert : isInert ' ' = true := by decide
      have hmark : isInert c = false := by
        rcases hbreak with rfl | rfl <;> decide
      rw [hspace, marks_cons, hinert, hmark]
      exact List.Sublist.cons c ih
    · have hsame : onOneLine (c :: rest) = c :: onOneLine rest := by
        rw [onOneLine_cons, spaceForBreak, if_neg hbreak]
      rw [hsame, marks_cons]
      split_ifs
      · exact ih
      · exact ih.cons_cons c

end Text

/-! ## One statement -/

namespace Table

theorem flatten_eq (statement : Text) : flatten statement = statement.onOneLine.trim :=
  rfl

theorem marks_flatten_sublist (statement : Text) :
    (flatten statement).marks.Sublist statement.marks :=
  ((Text.trim_sublist _).filter _).trans (Text.marks_onOneLine_sublist statement)

theorem not_break_of_mem_flatten {statement : Text} {c : Char} (h : c ∈ flatten statement) :
    c ≠ '\r' ∧ c ≠ '\n' :=
  (Text.mem_onOneLine ((Text.trim_sublist _).subset h)).2

theorem mem_flatten {statement : Text} {c : Char} (h : Unicode.isWhitespace c = false)
    (hc : c ∈ statement) : c ∈ flatten statement :=
  Text.mem_trim h (List.mem_map.2 ⟨c, hc, (Text.spaceForBreak_eq_iff h).2 rfl⟩)

/-- A statement on one line begins with what the statement begins with. -/
theorem head?_flatten (statement : Text) :
    (flatten statement).head? = statement.trimStart.head? := by
  have hhead := Text.head?_trimStart statement
  rw [flatten_eq, Text.trim, Text.trimStart_onOneLine]
  cases hstart : statement.trimStart with
  | nil => rfl
  | cons c rest =>
    have hc : Unicode.isWhitespace c = false := by simpa [hstart] using hhead
    rw [Text.onOneLine_cons, (Text.spaceForBreak_eq_iff hc).2 rfl, Text.head?_trimEnd_of_ne hc,
      List.head?_cons]

/-- A statement is passed over as a comment exactly if it is one for desugaring. -/
theorem head?_flatten_eq_iff {statement : Text} :
    (flatten statement).head? = some '#' ↔ isComment statement = true := by
  rw [head?_flatten, isComment, decide_eq_true_iff]

end Table

theorem Definition.content_ofStatement_sublist (statement : Text) :
    (ofStatement statement).content.Sublist statement := by
  unfold ofStatement
  cases hsplit : statement.splitFirst? '=' with
  | none => exact List.nil_sublist _
  | some parts =>
    obtain ⟨name, content⟩ := parts
    have hcontent : content.Sublist statement := by
      unfold Text.splitFirst? at hsplit
      split at hsplit
      · cases hsplit
      · rename_i hdrop
        cases hsplit
        have hsub : (statement.dropWhile (· ≠ '=')).Sublist statement := List.dropWhile_sublist _
        rw [hdrop] at hsub
        exact (List.sublist_cons_self _ _).trans hsub
    exact (Text.trim_sublist content).trans hcontent

theorem Definition.trim_content_ofStatement (statement : Text) :
    (ofStatement statement).content.trim = (ofStatement statement).content := by
  unfold ofStatement
  split
  · exact Text.trim_trim _
  · rfl

namespace Table

/-- The definition a statement is read as, if it is neither blank nor a comment. -/
def definition? (statement : Text) : Option Definition :=
  let line := flatten statement
  if !line.isEmpty && line.head? ≠ some '#' then some (Definition.ofStatement line) else none

theorem definitions_eq_filterMap (source : Text) :
    definitions source = (source.splitOn ';').filterMap definition? := by
  rw [definitions, statements]
  induction source.splitOn ';' with
  | nil => rfl
  | cons statement rest ih =>
    rw [List.map_cons, List.filterMap_cons, definition?]
    cases hkept : !(flatten statement).isEmpty && (flatten statement).head? ≠ some '#' with
    | true =>
      rw [List.filter_cons_of_pos (by simpa using hkept), List.map_cons, ih]
      simp
    | false =>
      rw [List.filter_cons_of_neg (by simpa using hkept), ih]
      simp

/-- A statement with `=` defines what stands in front of the first one by what stands behind it. -/
theorem definition?_append_cons {before : Text} (after : Text) (h : '=' ∉ before)
    (hcomment : isComment (before ++ '=' :: after) = false) :
    definition? (before ++ '=' :: after) = some ⟨flatten before, flatten after⟩ := by
  have hequals : Unicode.isWhitespace '=' = false := by decide
  have hline : Text.onOneLine ('=' :: after) = '=' :: after.onOneLine := rfl
  have hflatten : flatten (before ++ '=' :: after) =
      before.onOneLine.trimStart ++ '=' :: after.onOneLine.trimEnd := by
    rw [flatten_eq, Text.onOneLine_append, hline, Text.trim,
      Text.trimStart_append_cons _ _ hequals, Text.trimEnd_append_cons _ _ hequals]
  have hbefore : '=' ∉ before.onOneLine.trimStart := by
    intro hmem
    rcases (Text.mem_onOneLine ((List.dropWhile_sublist _).subset hmem)).1 with heq | hmem
    · exact absurd heq (by decide)
    · exact h hmem
  have hnonempty : (flatten (before ++ '=' :: after)).isEmpty = false := by
    rw [hflatten]
    simp
  have hhead : (flatten (before ++ '=' :: after)).head? ≠ some '#' := by
    rw [ne_eq, head?_flatten_eq_iff, hcomment]
    exact Bool.false_ne_true
  have hkept : (!(flatten (before ++ '=' :: after)).isEmpty &&
      (flatten (before ++ '=' :: after)).head? ≠ some '#') = true := by
    rw [hnonempty]
    simpa using hhead
  rw [definition?]
  simp only [hkept, if_true]
  rw [hflatten, Definition.ofStatement, Text.splitFirst?_append_cons _ hbefore]
  simp only [Text.trim_trimStart, Text.trim_trimEnd, flatten_eq]

/-- Neither the layout in front of a name nor the blank behind it is left. -/
theorem flatten_name {symbol : Symbol} (hvalid : symbol.Valid) {layout : Text}
    (hlayout : ∀ c ∈ layout, Unicode.isWhitespace c = true) :
    flatten (layout ++ symbol.name ++ [' ']) = symbol.name := by
  have hname : symbol.name.onOneLine = symbol.name := by
    refine Text.onOneLine_eq_self fun c hc => ?_
    have hinert := isInert_of_mem_name hvalid hc
    constructor
    · rintro rfl
      exact absurd hinert (by decide)
    · rintro rfl
      exact absurd hinert (by decide)
  have hspace : Unicode.isWhitespace ' ' = true := by decide
  have hline : Text.onOneLine [' '] = [' '] := rfl
  obtain ⟨tail, htail⟩ := writeReference_eq_cons false hvalid
  have hsigil : symbol.name = '$' :: tail := htail
  have hbegins : (symbol.name ++ [' ']).head?.any Unicode.isWhitespace = false := by
    have hblank : Unicode.isWhitespace '$' = false := by decide
    simp [hsigil, hblank]
  have hends : symbol.name.getLast?.any Unicode.isWhitespace = false :=
    Content.endsBlank_writeReference hvalid false
  rw [flatten_eq, Text.onOneLine_append, Text.onOneLine_append, hname, hline, List.append_assoc,
    Text.trim, Text.trimStart_append_of_blank (Text.all_blank_onOneLine hlayout),
    Text.trimStart_eq_self hbegins, Text.trimEnd_append_blank _ hspace, Text.trimEnd_eq_self hends]

/-- A statement with a name in front of its first `=` defines that name, by all that stands behind,
whatever layout stands in front. -/
theorem definition?_of_name {symbol : Symbol} (hvalid : symbol.Valid) (layout : Text)
    (hlayout : ∀ c ∈ layout, Unicode.isWhitespace c = true) (body : Text) :
    definition? (layout ++ symbol.name ++ [' ', '='] ++ body) =
      some ⟨symbol.name, flatten body⟩ := by
  have hform : layout ++ symbol.name ++ [' ', '='] ++ body =
      (layout ++ symbol.name ++ [' ']) ++ '=' :: body := by simp
  have hbefore : '=' ∉ layout ++ symbol.name ++ [' '] := by
    have hidentifier : isIdentifierChar '=' = false := isIdentifierChar_of_mem_signs (by decide)
    have hname := hvalid.not_mem_name (by decide) hidentifier
    have hblank : '=' ∉ layout := fun hmem => absurd (hlayout _ hmem) (by decide)
    simp [hname, hblank]
  have hcomment : isComment ((layout ++ symbol.name ++ [' ']) ++ '=' :: body) = false := by
    obtain ⟨tail, htail⟩ := writeReference_eq_cons false hvalid
    have hname : symbol.name = '$' :: tail := htail
    rw [hname, List.append_assoc, List.append_assoc, List.cons_append]
    exact Group.isComment_append_sigil hlayout _
  rw [hform, definition?_append_cons body hbefore hcomment, flatten_name hvalid hlayout]

theorem definition?_name_append {symbol : Symbol} (hvalid : symbol.Valid) (body : Text) :
    definition? (symbol.name ++ [' ', '='] ++ body) = some ⟨symbol.name, flatten body⟩ :=
  definition?_of_name hvalid [] (List.forall_mem_nil _) body

theorem exists_of_definition? {statement : Text} {definition : Definition}
    (h : definition? statement = some definition) :
    isComment statement = false ∧ definition = Definition.ofStatement (flatten statement) := by
  unfold definition? at h
  dsimp only at h
  split_ifs at h with hkept
  cases h
  simp only [Bool.and_eq_true, decide_eq_true_eq] at hkept
  refine ⟨?_, rfl⟩
  rw [← Bool.not_eq_true, ← head?_flatten_eq_iff]
  exact hkept.2

/-- What a statement defines stands in front of its first `=`, or is the whole statement. -/
theorem cases_of_definition? {statement : Text} {definition : Definition}
    (h : definition? statement = some definition) :
    isComment statement = false ∧
      ((∃ before after, '=' ∉ before ∧ statement = before ++ '=' :: after ∧
          definition = ⟨flatten before, flatten after⟩) ∨
        '=' ∉ statement ∧ definition = ⟨flatten statement, []⟩) := by
  obtain ⟨hcomment, hread⟩ := exists_of_definition? h
  refine ⟨hcomment, ?_⟩
  by_cases hequals : '=' ∈ statement
  · obtain ⟨before, after, rfl, hbefore⟩ := List.eq_append_cons_of_mem hequals
    rw [definition?_append_cons after hbefore hcomment, Option.some.injEq] at h
    exact Or.inl ⟨before, after, hbefore, rfl, h.symm⟩
  · refine Or.inr ⟨hequals, ?_⟩
    have hflatten : '=' ∉ flatten statement := by
      intro hmem
      rcases (Text.mem_onOneLine ((Text.trim_sublist _).subset hmem)).1 with heq | hmem
      · exact absurd heq (by decide)
      · exact hequals hmem
    rw [hread, Definition.ofStatement, Text.splitFirst?_eq_none hflatten]

end Table

/-! ## Whitespace around a content -/

theorem Alternative.parse_cons_of_blank {c : Char} (h : Unicode.isWhitespace c = true)
    (text : Text) : parse (c :: text) = parse text := by
  rw [parse, parse, Text.trim, Text.trimStart_cons_of_blank h, Text.trim]

theorem Production.parse_cons_of_blank {c : Char} (h : Unicode.isWhitespace c = true)
    (content : Text) : parse (c :: content) = parse content := by
  have hbar : c ≠ '|' := ne_of_isWhitespace h (by decide)
  rw [parse, parse, Text.splitOn_cons_of_ne _ hbar]
  cases hsplit : content.splitOn '|' with
  | nil => exact absurd hsplit (List.splitOn_ne_nil _ content)
  | cons first others =>
    rw [List.modifyHead_cons, List.map_cons, List.map_cons, Alternative.parse_cons_of_blank h]

theorem Production.parse_trimEnd (content : Text) : parse content.trimEnd = parse content := by
  have hparse : Alternative.parse ∘ Text.trimEnd = Alternative.parse := by
    funext text
    rw [Function.comp_apply, Alternative.parse, Text.trim_trimEnd, Alternative.parse]
  have hpieces := Text.map_trimEnd_splitOn_trimEnd (by decide : Unicode.isWhitespace '|' = false)
    content
  have hmap := congrArg (List.map Alternative.parse) hpieces
  rw [List.map_map, List.map_map, hparse] at hmap
  rw [parse, parse, hmap]

/-- Whitespace around a content makes no difference. -/
theorem Production.parse_trim (content : Text) : parse content.trim = parse content := by
  rw [Text.trim, parse_trimEnd]
  induction content with
  | nil => rfl
  | cons c rest ih =>
    cases hc : Unicode.isWhitespace c with
    | true => rw [Text.trimStart_cons_of_blank hc, ih, parse_cons_of_blank hc]
    | false => rw [Text.trimStart_eq_self (by simpa using hc)]

theorem Production.parse_flatten (content : Text) :
    parse (Table.flatten content) = parse content.onOneLine := by
  rw [Table.flatten_eq, parse_trim]

/-! ## Definitions that are written as they are read -/

/-- A content on one line, without groups, without whitespace at its ends, and without the end of
its statement. -/
structure Settled (content : Text) : Prop where
  trimmed : content.trim = content
  single : ∀ c ∈ content, c ≠ '\r' ∧ c ≠ '\n'
  unterminated : ';' ∉ content
  flat : ∀ kind : GroupKind, ¬kind.HasPair content

namespace Table

theorem exists_of_mem_definitions {source : Text} {definition : Definition}
    (h : definition ∈ definitions source) :
    ∃ s ∈ source.splitOn ';', isComment s = false ∧
      definition = Definition.ofStatement (flatten s) := by
  rw [definitions_eq_filterMap] at h
  obtain ⟨s, hs, hread⟩ := List.mem_filterMap.1 h
  exact ⟨s, hs, exists_of_definition? hread⟩

/-- The contents in a source without groups are settled. -/
theorem settled_of_mem_definitions {source : Text} (hflat : ∀ kind, Group.Flat kind source)
    {definition : Definition} (h : definition ∈ definitions source) :
    Settled definition.content := by
  obtain ⟨s, hs, hcomment, rfl⟩ := exists_of_mem_definitions h
  have hsub := Definition.content_ofStatement_sublist (flatten s)
  have hmarks : (Definition.ofStatement (flatten s)).content.marks.Sublist (Text.marks s) :=
    (hsub.filter _).trans (marks_flatten_sublist s)
  constructor
  · exact Definition.trim_content_ofStatement _
  · exact fun c hc => not_break_of_mem_flatten (hsub.subset hc)
  · have hinert : isInert ';' = false := by decide
    rw [← Text.mem_marks hinert]
    intro hmem
    exact Text.not_mem_of_mem_splitOn hs ((Text.mem_marks hinert).1 (hmarks.subset hmem))
  · intro kind hpair
    refine hflat kind s hs hcomment ?_
    rw [← GroupKind.hasPair_marks] at hpair ⊢
    exact hpair.mono hmarks

end Table

/-- What a source is made of: symbols with their contents. -/
abbrev Entry := Symbol × Text

namespace Entry

/-- The definition by a content. -/
def definition (entry : Entry) : Definition :=
  ⟨entry.1.name, entry.2⟩

/-- The written form of an entry. -/
def print (entry : Entry) : Text :=
  entry.1.name ++ [' ', '='] ++ ' ' :: entry.2

/-- An entry that a source may hold. Only the symbol of a group may have no content. -/
structure Sound (entry : Entry) : Prop where
  valid : entry.1.Valid
  nonempty : entry.2 ≠ [] ∨ entry.1.isSynthetic = true

/-- The row of a table that an entry becomes. -/
def row (entry : Entry) : Symbol × Production :=
  (entry.1, Production.parse entry.2)

variable {entry : Entry}

theorem marks_print (hvalid : entry.1.Valid) : entry.print.marks = entry.2.marks := by
  have hname : entry.1.name.marks = [] := Text.marks_eq_nil fun _ => isInert_of_mem_name hvalid
  have hbetween : Text.marks [' ', '=', ' '] = [] := by decide
  have hform : entry.print = entry.1.name ++ ([' ', '=', ' '] ++ entry.2) := by simp [print]
  rw [hform, Text.marks_append, Text.marks_append, hname, hbetween]
  rfl

/-- A settled entry is read as it was written. -/
theorem definition?_print (hvalid : entry.1.Valid) (hsettled : Settled entry.2) :
    Table.definition? entry.print = some entry.definition := by
  have hread := Table.definition?_name_append hvalid (' ' :: entry.2)
  have hblank : Table.flatten (' ' :: entry.2) = entry.2 := by
    have hline : Text.onOneLine (' ' :: entry.2) = ' ' :: Text.onOneLine entry.2 := rfl
    rw [Table.flatten_eq, hline, Text.onOneLine_eq_self hsettled.single, Text.trim,
      Text.trimStart_cons_of_blank (by decide)]
    exact hsettled.trimmed
  rw [hblank] at hread
  exact hread

end Entry

/-- The source that consists of some entries. -/
def printEntries (entries : List Entry) : Text :=
  [';'].intercalate (entries.map Entry.print)

section Sources

variable {entries : List Entry}

theorem split_printEntries (hne : entries ≠ []) (hvalid : ∀ entry ∈ entries, entry.1.Valid)
    (hsettled : ∀ entry ∈ entries, Settled entry.2) :
    (printEntries entries).splitOn ';' = entries.map Entry.print := by
  refine List.splitOn_intercalate ';' ?_ (by simpa using hne)
  intro written hwritten
  obtain ⟨entry, hentry, rfl⟩ := List.mem_map.1 hwritten
  have hinert : isInert ';' = false := by decide
  rw [← Text.mem_marks hinert, Entry.marks_print (hvalid entry hentry), Text.mem_marks hinert]
  exact (hsettled entry hentry).unterminated

/-- Settled entries hold no groups. -/
theorem desugar_printEntries (hne : entries ≠ []) (hvalid : ∀ entry ∈ entries, entry.1.Valid)
    (hsettled : ∀ entry ∈ entries, Settled entry.2) :
    desugar (printEntries entries) = printEntries entries := by
  rw [Group.desugar_eq_self_iff]
  intro kind s hs _ hpair
  rw [split_printEntries hne hvalid hsettled] at hs
  obtain ⟨entry, hentry, rfl⟩ := List.mem_map.1 hs
  rw [← GroupKind.hasPair_marks, Entry.marks_print (hvalid entry hentry),
    GroupKind.hasPair_marks] at hpair
  exact (hsettled entry hentry).flat kind hpair

/-- Settled entries are found again in their source. -/
theorem definitions_printEntries (hne : entries ≠ []) (hvalid : ∀ entry ∈ entries, entry.1.Valid)
    (hsettled : ∀ entry ∈ entries, Settled entry.2) :
    Table.definitions (printEntries entries) = entries.map Entry.definition := by
  rw [Table.definitions_eq_filterMap, split_printEntries hne hvalid hsettled, List.filterMap_map]
  have hread : ∀ entry ∈ entries, (Table.definition? ∘ Entry.print) entry =
      (some ∘ Entry.definition) entry := fun entry hentry =>
    Entry.definition?_print (hvalid entry hentry) (hsettled entry hentry)
  rw [List.filterMap_congr hread, List.filterMap_eq_map]

end Sources

/-! ## The rows of a table -/

namespace Table

theorem exists_of_addTo {definition : Definition} {table table' : Table}
    (h : definition.addTo table = .ok table') :
    ∃ entry : Entry, definition = entry.definition ∧ entry.Sound ∧
      table'.rows = table.rows ++ [entry.row] := by
  unfold Definition.addTo at h
  split at h
  · cases h
  · rename_i symbol hsymbol
    split_ifs at h with hempty
    have hnew : symbol ∉ table.symbols := by
      intro hmem
      rw [insert, if_pos (contains_iff_mem_symbols.2 hmem)] at h
      cases h
    rw [insert_of_not_mem hnew] at h
    cases h
    have hname : definition.name = symbol.name := by
      unfold Symbol.parse? at hsymbol
      split_ifs at hsymbol
      cases hsymbol
      rfl
    refine ⟨(symbol, definition.content), ?_, ⟨Symbol.valid_of_parse? hsymbol, ?_⟩, rfl⟩
    · rw [Entry.definition, ← hname]
    · rw [Bool.and_eq_true, not_and_or] at hempty
      simpa using hempty

theorem exists_entries_of_foldlM {definitions : List Definition} {table table' : Table}
    (h : definitions.foldlM (fun table d => d.addTo table) table = Except.ok table') :
    ∃ entries : List Entry, definitions = entries.map Entry.definition ∧
      (∀ entry ∈ entries, entry.Sound) ∧ table'.rows = table.rows ++ entries.map Entry.row := by
  induction definitions generalizing table with
  | nil =>
    cases h
    exact ⟨[], rfl, by simp, by simp⟩
  | cons definition rest ih =>
    rw [List.foldlM_cons] at h
    cases hadd : definition.addTo table with
    | error error =>
      rw [hadd] at h
      cases h
    | ok next =>
      rw [hadd] at h
      obtain ⟨entry, rfl, hsound, hnext⟩ := exists_of_addTo hadd
      obtain ⟨entries, rfl, hentries, hrows⟩ := ih h
      refine ⟨entry :: entries, rfl, List.forall_mem_cons.2 ⟨hsound, hentries⟩, ?_⟩
      rw [hrows, hnext, List.map_cons, List.append_assoc, List.singleton_append]

/-- A table that was read has one row for each definition of the source. -/
theorem exists_entries_of_parse {source : Text} {table : Table}
    (h : Table.parse source = .ok table) :
    ∃ entries : List Entry, definitions source = entries.map Entry.definition ∧
      (∀ entry ∈ entries, entry.Sound) ∧ table.rows = entries.map Entry.row := by
  obtain ⟨hfold, -⟩ := foldlM_of_parse h
  exact exists_entries_of_foldlM hfold

/-- Sound entries, one for each symbol and one for `$s`, are read as their rows. -/
theorem exists_parse_of_entries {source : Text} {entries : List Entry}
    (hdefinitions : definitions source = entries.map Entry.definition)
    (hsound : ∀ entry ∈ entries, entry.Sound) (hdistinct : (entries.map Prod.fst).Nodup)
    (hstart : Symbol.start ∈ entries.map Prod.fst) :
    ∃ table, Table.parse source = .ok table ∧ table.rows = entries.map Entry.row := by
  obtain ⟨table, hfold, hrows⟩ := exists_foldlM_addTo
    (fun entry hentry => ⟨(hsound entry hentry).valid, (hsound entry hentry).nonempty⟩) empty
    (by simpa [symbols, empty] using hdistinct)
  have hcontains : table.contains Symbol.start = true := by
    rw [contains_iff_mem_symbols, symbols, hrows]
    simpa [empty, Entry.row, Function.comp_def] using hstart
  refine ⟨table, ?_, hrows⟩
  have hread : (entries.map Entry.definition).foldlM (fun table d => d.addTo table) empty =
      Except.ok table := hfold
  rw [Table.parse, hdefinitions, hread]
  show (if table.contains Symbol.start then Except.ok table else _) = _
  rw [if_pos hcontains]

end Table

end TextGrammar
