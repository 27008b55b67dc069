import Mathlib.Data.List.Nodup
import TextGrammar.Forced.Cycle
import TextGrammar.Table.Reader
import TextGrammar.Proofs.Symbols

/-!
# Tables and the definitions they are read from

Looking up a symbol agrees with the rows as long as no symbol has two of them
(`Table.get?_eq_some_iff`), and definitions with distinct well-formed names become the rows of a
table, in their order (`Table.exists_foldlM_addTo`).
-/

namespace TextGrammar

namespace Table

variable {table : Table} {symbol : Symbol} {production : Production}

/-! ## Looking up -/

theorem mem_rows_of_get? (h : table.get? symbol = some production) :
    (symbol, production) ∈ table.rows := by
  unfold get? at h
  obtain ⟨before, after, hrows, -⟩ := List.lookup_eq_some_iff.1 h
  rw [hrows]
  simp

theorem lookup_of_mem {rows : List (Symbol × Production)} (hdistinct : (rows.map Prod.fst).Nodup)
    (h : (symbol, production) ∈ rows) : rows.lookup symbol = some production := by
  induction rows with
  | nil => simp at h
  | cons row rest ih =>
    obtain ⟨key, value⟩ := row
    rw [List.map_cons, List.nodup_cons] at hdistinct
    rcases List.mem_cons.1 h with heq | hmem
    · cases heq
      simp
    · have hne : symbol ≠ key := by
        intro heq
        subst heq
        exact hdistinct.1 (List.mem_map.2 ⟨_, hmem, rfl⟩)
      rw [List.lookup_cons, beq_eq_false_iff_ne.2 hne]
      exact ih hdistinct.2 hmem

/-- Looking up finds the rows, if no symbol has two of them. -/
theorem get?_eq_some_iff (hdistinct : table.symbols.Nodup) :
    table.get? symbol = some production ↔ (symbol, production) ∈ table.rows :=
  ⟨mem_rows_of_get?, lookup_of_mem hdistinct⟩

theorem contains_iff_mem_symbols : table.contains symbol = true ↔ symbol ∈ table.symbols := by
  refine ⟨mem_symbols_of_contains, ?_⟩
  intro h
  obtain ⟨row, hrow, rfl⟩ := List.mem_map.1 h
  unfold contains get?
  rw [List.lookup_isSome_iff]
  exact ⟨row, hrow, beq_self_eq_true _⟩

/-- Which symbols are defined can be told from the symbols. -/
theorem contains_congr {table' : Table} (h : table'.symbols = table.symbols) (symbol : Symbol) :
    table'.contains symbol = table.contains symbol := by
  rw [Bool.eq_iff_iff, contains_iff_mem_symbols, contains_iff_mem_symbols, h]

theorem mem_symbols_of_get? (h : table.get? symbol = some production) :
    symbol ∈ table.symbols := by
  rw [← contains_iff_mem_symbols, contains, h, Option.isSome_some]

theorem not_mem_symbols_of_get? (h : table.get? symbol = none) : symbol ∉ table.symbols := by
  rw [← contains_iff_mem_symbols, contains, h]
  exact Bool.false_ne_true

/-- The alternatives of a symbol, none if it is not defined. -/
def alternatives (table : Table) (symbol : Symbol) : List Alternative :=
  match table.get? symbol with
  | some production => production.alternatives
  | none => []

theorem alternatives_of_get? (h : table.get? symbol = some production) :
    table.alternatives symbol = production.alternatives := by
  rw [alternatives, h]

theorem exists_mem_rows_of_mem_alternatives {a : Alternative}
    (h : a ∈ table.alternatives symbol) :
    ∃ production, (symbol, production) ∈ table.rows ∧ a ∈ production.alternatives := by
  unfold alternatives at h
  split at h
  · rename_i production hget
    exact ⟨production, mem_rows_of_get? hget, h⟩
  · simp at h

theorem alternatives_of_not_mem (h : symbol ∉ table.symbols) : table.alternatives symbol = [] := by
  apply List.eq_nil_iff_forall_not_mem.2
  intro a ha
  obtain ⟨production, hrow, -⟩ := exists_mem_rows_of_mem_alternatives ha
  exact h (List.mem_map.2 ⟨_, hrow, rfl⟩)

/-- A table without duplicate symbols is the list of their alternatives. -/
theorem rows_eq_map_symbols (hdistinct : table.symbols.Nodup) :
    table.rows = table.symbols.map fun symbol => (symbol, ⟨table.alternatives symbol⟩) := by
  have hself : ∀ row ∈ table.rows, row = (row.1, ⟨table.alternatives row.1⟩) := by
    intro row hrow
    have hget : table.get? row.1 = some row.2 := (get?_eq_some_iff hdistinct).2 hrow
    rw [alternatives_of_get? hget]
  rw [symbols, List.map_map]
  exact (List.map_id _).symm.trans (List.map_congr_left hself)

/-! ## Replacing alternatives -/

/-- Replacing changes what is found for the one symbol, if it is defined, and nothing else. -/
theorem get?_replace (table : Table) (symbol : Symbol) (alternatives : List Alternative)
    (symbol' : Symbol) :
    (table.replace symbol alternatives).get? symbol' =
      if symbol' = symbol then (table.get? symbol).map fun _ => ⟨alternatives⟩
      else table.get? symbol' := by
  unfold get? replace
  show List.lookup symbol' (table.rows.map _) = _
  induction table.rows with
  | nil => simp
  | cons row rest ih =>
    obtain ⟨key, value⟩ := row
    by_cases hkey : key = symbol
    · subst hkey
      by_cases hsymbol : symbol' = key
      · subst hsymbol
        simp
      · rw [if_neg hsymbol] at ih
        rw [List.map_cons, if_pos rfl, if_neg hsymbol, List.lookup_cons, List.lookup_cons,
          beq_eq_false_iff_ne.2 hsymbol]
        exact ih
    · rw [List.map_cons, if_neg hkey, List.lookup_cons, List.lookup_cons, List.lookup_cons,
        beq_eq_false_iff_ne.2 (Ne.symm hkey)]
      by_cases hfound : symbol' = key
      · subst hfound
        simp [hkey]
      · rw [beq_eq_false_iff_ne.2 hfound]
        exact ih

theorem alternatives_replace (h : table.get? symbol = some production)
    (alternatives : List Alternative) (symbol' : Symbol) :
    (table.replace symbol alternatives).alternatives symbol' =
      if symbol' = symbol then alternatives else table.alternatives symbol' := by
  unfold Table.alternatives
  rw [get?_replace]
  by_cases hsymbol : symbol' = symbol
  · rw [if_pos hsymbol, if_pos hsymbol, h, Option.map_some]
  · rw [if_neg hsymbol, if_neg hsymbol]

@[simp]
theorem symbols_replace (table : Table) (symbol : Symbol) (alternatives : List Alternative) :
    (table.replace symbol alternatives).symbols = table.symbols := by
  unfold symbols replace
  show (table.rows.map _).map Prod.fst = _
  rw [List.map_map]
  refine List.map_congr_left ?_
  intro row _
  by_cases hrow : row.1 = symbol
  · simp [hrow]
  · simp [hrow]

/-! ## Adding definitions -/

theorem insert_of_not_mem (h : symbol ∉ table.symbols) (production : Production) :
    table.insert symbol production = .ok {
      rows := table.rows ++ [(symbol, production)]
      forced := if production.hasForced then table.forced ++ [symbol] else table.forced } := by
  have hcontains : table.contains symbol = false := by
    rw [← Bool.not_eq_true, contains_iff_mem_symbols]
    exact h
  simp [insert, hcontains]

/-- Definitions of distinct symbols become rows, in their order. -/
theorem exists_foldlM_addTo {entries : List (Symbol × Text)}
    (hvalid : ∀ entry ∈ entries, entry.1.Valid ∧ (entry.2 ≠ [] ∨ entry.1.isSynthetic = true))
    (table : Table) (hdistinct : (table.symbols ++ entries.map Prod.fst).Nodup) :
    ∃ table', (entries.map fun entry => Definition.mk entry.1.name entry.2).foldlM
        (fun table definition => definition.addTo table) table = Except.ok table' ∧
      table'.rows = table.rows ++ entries.map fun entry => (entry.1, Production.parse entry.2) := by
  induction entries generalizing table with
  | nil => exact ⟨table, rfl, by simp⟩
  | cons entry rest ih =>
    obtain ⟨symbol, content⟩ := entry
    obtain ⟨hsymbol, hcontent⟩ := hvalid _ List.mem_cons_self
    have hnew : symbol ∉ table.symbols := by
      intro hmem
      exact (List.nodup_append.1 hdistinct).2.2 symbol hmem symbol List.mem_cons_self rfl
    have hadd : (Definition.mk symbol.name content).addTo table =
        table.insert symbol (Production.parse content) := by
      have hnot : (content.isEmpty && !symbol.isSynthetic) = false := by
        rcases hcontent with hne | hsynthetic
        · simp [hne]
        · simp [hsynthetic]
      simp [Definition.addTo, hsymbol.parse?, hnot]
    rw [insert_of_not_mem hnew] at hadd
    have hrest : ((table.rows ++ [(symbol, Production.parse content)]).map Prod.fst ++
        rest.map Prod.fst).Nodup := by
      simpa [symbols] using hdistinct
    obtain ⟨table', hfold, hrows⟩ :=
      ih (fun e he => hvalid e (List.mem_cons_of_mem _ he)) ⟨_, _⟩ hrest
    refine ⟨table', ?_, ?_⟩
    · rw [List.map_cons, List.foldlM_cons]
      simp only [hadd]
      exact hfold
    · rw [hrows]
      simp

end Table

end TextGrammar
