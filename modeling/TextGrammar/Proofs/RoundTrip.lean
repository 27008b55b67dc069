import TextGrammar.Proofs.Spelling
import TextGrammar.Proofs.Statements

/-!
# Tables are read back

A table that was read from a desugared source can be written as a source again: one statement for
each row, with the production as it prints. That source has nothing to desugar, and it is read as
the very same table (`Table.print_round_trip`). Writing drops the braces that a reference does not
need, whitespace, line breaks and comments; stray delimiters, a lone `$` or `>`, further `=` signs,
empty alternatives and empty productions of groups have to come through.
-/

namespace TextGrammar

/-- The source of a table: its rows in their order. -/
def Table.print (table : Table) : Text :=
  [';'].intercalate (table.rows.map fun row => row.1.name ++ [' ', '=', ' '] ++ row.2.print)

/-- The content that a production prints as is settled like the one it was read from. -/
theorem Settled.print_parse {content : Text} (h : Settled content) :
    Settled (Production.parse content).print := by
  have hmarks := Production.marks_print_parse_sublist content
  obtain ⟨hbegins, hends⟩ := Production.ends_print_parse content
  have hmark : ∀ c, isInert c = false → c ∉ content → c ∉ (Production.parse content).print := by
    intro c hinert hnot hmem
    rw [← Text.mem_marks hinert] at hnot hmem
    exact hnot (hmarks.subset hmem)
  constructor
  · exact Text.trim_eq_self hbegins hends
  · intro c hc
    constructor
    · rintro rfl
      exact hmark _ (by decide) (fun hmem => (h.single _ hmem).1 rfl) hc
    · rintro rfl
      exact hmark _ (by decide) (fun hmem => (h.single _ hmem).2 rfl) hc
  · exact hmark _ (by decide) h.unterminated
  · intro kind hpair
    refine h.flat kind ?_
    rw [← GroupKind.hasPair_marks] at hpair ⊢
    exact hpair.mono hmarks

namespace Entry

/-- An entry with its content as the production prints it. -/
def reprint (entry : Entry) : Entry :=
  (entry.1, (Production.parse entry.2).print)

variable {entry : Entry}

theorem row_reprint (entry : Entry) : entry.reprint.row = entry.row := by
  rw [row, reprint, Production.parse_print_parse, row]

theorem Sound.reprint (h : entry.Sound) (hsettled : Settled entry.2) : entry.reprint.Sound := by
  refine ⟨h.valid, h.nonempty.imp_left fun hne hnil => hne ?_⟩
  rw [← hsettled.trimmed]
  exact Production.trim_eq_nil_of_print_parse hnil

end Entry

namespace Table

theorem print_eq_printEntries {table : Table} {entries : List Entry}
    (h : table.rows = entries.map Entry.row) :
    table.print = printEntries (entries.map Entry.reprint) := by
  rw [print, printEntries, h, List.map_map, List.map_map]
  refine congrArg _ (List.map_congr_left fun entry _ => ?_)
  simp [Entry.row, Entry.reprint, Entry.print]

/-- A table that was read from a desugared source is written as a source that has nothing to
desugar and is read as the same table: the same symbols with the same alternatives in the same
order, and the same symbols whose forced references are to be resolved. -/
theorem print_round_trip {source : Text} {table : Table}
    (h : Table.parse (desugar source) = .ok table) :
    desugar table.print = table.print ∧ Table.parse table.print = .ok table := by
  obtain ⟨entries, hdefinitions, hsound, hrows⟩ := exists_entries_of_parse h
  obtain ⟨-, hstart⟩ := foldlM_of_parse h
  have hasRead := asRead_of_parse h
  have hsymbols : table.symbols = entries.map Prod.fst := by
    rw [symbols, hrows, List.map_map]
    rfl
  have hsettled : ∀ entry ∈ entries, Settled entry.2 := by
    intro entry hentry
    have hmem : entry.definition ∈ definitions (desugar source) := by
      rw [hdefinitions]
      exact List.mem_map.2 ⟨entry, hentry, rfl⟩
    exact settled_of_mem_definitions (Group.flat_desugar · source) hmem
  have hne : entries.map Entry.reprint ≠ [] := by
    rw [contains_iff_mem_symbols, hsymbols] at hstart
    rintro hnil
    rw [List.map_eq_nil_iff.1 hnil] at hstart
    exact List.not_mem_nil hstart
  have hsound' : ∀ entry ∈ entries.map Entry.reprint, entry.Sound := by
    intro entry hentry
    obtain ⟨entry, hmem, rfl⟩ := List.mem_map.1 hentry
    exact (hsound entry hmem).reprint (hsettled entry hmem)
  have hsettled' : ∀ entry ∈ entries.map Entry.reprint, Settled entry.2 := by
    intro entry hentry
    obtain ⟨entry, hmem, rfl⟩ := List.mem_map.1 hentry
    exact (hsettled entry hmem).print_parse
  have hvalid' := fun entry hentry => (hsound' entry hentry).valid
  rw [print_eq_printEntries hrows]
  refine ⟨desugar_printEntries hne hvalid' hsettled', ?_⟩
  have hreprint : (entries.map Entry.reprint).map Prod.fst = table.symbols := by
    rw [hsymbols, List.map_map]
    rfl
  obtain ⟨table', hparse, hrows'⟩ := exists_parse_of_entries
    (definitions_printEntries hne hvalid' hsettled') hsound'
    (by rw [hreprint]; exact hasRead.distinct)
    (by rw [hreprint]; exact contains_iff_mem_symbols.1 hstart)
  have hsame : table'.rows = table.rows := by
    rw [hrows', hrows, List.map_map]
    exact List.map_congr_left fun entry _ => Entry.row_reprint entry
  -- The symbols that wait are those of the rows with forced references.
  have hforced : table'.forced = table.forced := by
    rw [(asRead_of_parse hparse).forced_eq, hasRead.forced_eq, hsame]
  rw [hparse]
  obtain ⟨rows, forced⟩ := table
  obtain ⟨rows', forced'⟩ := table'
  cases hsame
  cases hforced
  rfl

/-- A source with a comment, stray delimiters, braces that are not needed, a lone `$` and `>`, a
further `=`, an empty alternative and the symbol of a group without content. -/
def untidySource : Text :=
  "$s = b) [c ${t}d|]>${t}=;# (x);\n$_grp7;$t=$ >|".toList

/-- The source that the table of that source is written as. -/
def tidySource : Text :=
  "$s = b) $_optgrp0>$t=;$_grp7 = ;$t = $ >|;$_optgrp0 = |$_grp0;$_grp0 = c ${t}d|".toList

/-- The table of both sources. -/
def untidyTable : Table :=
  let t := Symbol.ofIdentifier ['t']
  let first := GroupKind.optional.symbol 0
  let inner := GroupKind.plain.symbol 0
  let unused := GroupKind.plain.symbol 7
  { rows := [
      (.start, ⟨[⟨[.literal ['b', ')', ' '], .ref first, .forced t, .literal ['=']]⟩]⟩),
      (unused, ⟨[⟨[]⟩]⟩),
      (t, ⟨[⟨[.literal ['$', ' ', '>']]⟩, ⟨[]⟩]⟩),
      (first, ⟨[⟨[]⟩, ⟨[.ref inner]⟩]⟩),
      (inner, ⟨[⟨[.literal ['c', ' '], .ref t, .literal ['d']]⟩, ⟨[]⟩]⟩)]
    forced := [.start] }

theorem untidyTable_round_trip :
    Table.parse (desugar untidySource) = .ok untidyTable ∧ untidyTable.print = tidySource ∧
      desugar tidySource = tidySource ∧ Table.parse tidySource = .ok untidyTable := by
  have hparse : Table.parse (desugar untidySource) = .ok untidyTable := by decide +kernel
  have hprint : untidyTable.print = tidySource := by decide +kernel
  have htrip := print_round_trip hparse
  rw [hprint] at htrip
  exact ⟨hparse, hprint, htrip⟩

end Table

end TextGrammar
