import Std.Data.HashMap.Lemmas
import TextGrammar.Forced.Unfold
import TextGrammar.Proofs.Tables

/-!
# Tables with an index

A table holds its productions in one list, in the order of their definitions. It can as well keep
them in a hash map, with the order of the definitions beside it, and nothing but the operations
keeps the two in step.

* `IndexedTable` is such a table. Reading a source (`IndexedTable.parse`) and resolving forced
  references (`IndexedTable.unfold`, `IndexedTable.unfoldAll`) go through the map.
* `IndexedTable.Represents` relates it to a `Table`: the order is that of the rows, every symbol is
  looked up alike, and the same symbols wait to be resolved. There is one table that does
  (`Represents.eq`).
* Every operation keeps that: `Represents.insert`, `Represents.replace`,
  `Represents.entries_eq_rows`, and from these `representsResult_parse` and `Represents.unfoldAll`.
-/

namespace TextGrammar

/-- Symbols are hashed by their names. -/
instance : Hashable Symbol where
  hash symbol := hash (String.ofList symbol.name)

/-- The productions of a grammar by their symbols, with the order of the definitions and the symbols
whose forced references are still to be resolved. -/
structure IndexedTable where
  productions : Std.HashMap Symbol Production
  /-- The symbols in the order of their definitions. -/
  order : List Symbol
  /-- The symbols that were defined with forced references and are not resolved yet. -/
  forced : List Symbol

namespace IndexedTable

/-! ## Operations -/

/-- The table without definitions. -/
def empty : IndexedTable :=
  ⟨∅, [], []⟩

/-- The production of a symbol. -/
def get? (table : IndexedTable) (symbol : Symbol) : Option Production :=
  table.productions[symbol]?

/-- Whether a symbol is defined. -/
def contains (table : IndexedTable) (symbol : Symbol) : Bool :=
  table.productions.contains symbol

/-- The definitions in their order, as far as the map has their symbols. -/
def entries (table : IndexedTable) : List (Symbol × Production) :=
  table.order.filterMap fun symbol =>
    (table.get? symbol).map fun production => (symbol, production)

/-- Adds a definition at the end, unless the symbol has one already. -/
def insert (table : IndexedTable) (symbol : Symbol) (production : Production) :
    Except GrammarError IndexedTable :=
  if table.contains symbol then .error (.duplicateSymbol symbol)
  else .ok {
    productions := table.productions.insert symbol production
    order := table.order ++ [symbol]
    forced := if production.hasForced then table.forced ++ [symbol] else table.forced }

/-- Gives a symbol other alternatives, if the map has it. -/
def replace (table : IndexedTable) (symbol : Symbol) (alternatives : List Alternative) :
    IndexedTable :=
  { table with productions := table.productions.modify symbol fun _ => ⟨alternatives⟩ }

/-! ## Reading -/

/-- Adds a definition as it is written. -/
def define (table : IndexedTable) (definition : Definition) : Except GrammarError IndexedTable :=
  match Symbol.parse? definition.name with
  | none => .error (.invalidSymbolName definition.name)
  | some symbol =>
    if definition.content.isEmpty && !symbol.isSynthetic then .error (.emptyProduction symbol)
    else table.insert symbol (Production.parse definition.content)

/-- The table that a source without groups describes. -/
def parse (source : Text) : Except GrammarError IndexedTable := do
  let table ← (Table.definitions source).foldlM define empty
  if table.contains Symbol.start then .ok table else .error .missingStartSymbol

/-! ## Resolving -/

/-- The symbols a symbol refers to by force, in order; none if it is not defined. -/
def forcedReferences (table : IndexedTable) (symbol : Symbol) : List Symbol :=
  match table.get? symbol with
  | some production => production.forcedReferences
  | none => []

/-- The number of keys of the map that are not on a path. -/
def offPath (table : IndexedTable) (path : List Symbol) : Nat :=
  table.productions.keys.countP fun symbol => decide (symbol ∉ path)

theorem offPath_append_lt {table : IndexedTable} {path : List Symbol} {symbol : Symbol}
    (h : table.contains symbol = true) (hnew : symbol ∉ path) :
    table.offPath (path ++ [symbol]) < table.offPath path :=
  Table.countP_not_mem_append_lt (Std.HashMap.mem_keys.2 (Std.HashMap.mem_iff_contains.2 h)) hnew

/-- Walks some forced references of the last symbol of a path, like `Table.walkForced`. -/
def walkForced (table : IndexedTable) (path : List Symbol) :
    List Symbol → List Symbol → Except (List Symbol) (List Symbol)
  | [], done => .ok done
  | symbol :: rest, done =>
    if _hpath : symbol ∈ path then .error (path ++ [symbol])
    else if symbol ∈ done then walkForced table path rest done
    else if _hdef : table.contains symbol then
      match walkForced table (path ++ [symbol]) (table.forcedReferences symbol) done with
      | .error cycle => .error cycle
      | .ok done => walkForced table path rest (symbol :: done)
    else walkForced table path rest (symbol :: done)
termination_by references => (table.offPath path, references.length)
decreasing_by
  · exact Prod.Lex.right _ (by simp)
  · exact Prod.Lex.left _ _ (offPath_append_lt _hdef _hpath)
  · exact Prod.Lex.right _ (by simp)
  · exact Prod.Lex.right _ (by simp)

/-- The path of forced references from a symbol to the first one that comes back to the path. -/
def forcedCycle? (table : IndexedTable) (symbol : Symbol) : Option (List Symbol) :=
  match table.walkForced [symbol] (table.forcedReferences symbol) [] with
  | .error cycle => some cycle
  | .ok _ => none

/-- Resolves the leftmost forced reference of one alternative of `symbol`. -/
def unfoldAlternative (table : IndexedTable) (symbol : Symbol) (a : Alternative) :
    Except GrammarError (List Alternative) :=
  match a.firstForced? with
  | none => .ok [a]
  | some (index, reference) =>
    match table.get? reference with
    | none => .error (.undefinedForcedReference symbol reference)
    | some target => .ok (target.alternatives.map fun choice => a.splice index choice)

/-- Resolves the leftmost forced reference of every alternative of `symbol`. -/
def unfoldPass (table : IndexedTable) (symbol : Symbol) :
    List Alternative → Except GrammarError (List Alternative)
  | [] => .ok []
  | a :: rest => do
    let resolved ← table.unfoldAlternative symbol a
    let others ← unfoldPass table symbol rest
    return resolved ++ others

/-- Repeats the pass over the alternatives of `symbol` until no forced reference is left. `limit`
passes are allowed in all, and `left` of them remain. -/
def unfoldPasses (symbol : Symbol) (limit left : Nat) (table : IndexedTable) :
    Except GrammarError Unit × IndexedTable :=
  match table.get? symbol with
  | none => (.ok (), table)
  | some production =>
    if production.hasForced then
      match left with
      | 0 => (.error (.unfoldCycle symbol limit []), table)
      | left + 1 =>
        match table.unfoldPass symbol production.alternatives with
        | .error error => (.error error, table)
        | .ok alternatives =>
          unfoldPasses symbol limit left (table.replace symbol alternatives)
    else (.ok (), table)

/-- Resolves the forced references of one symbol in at most `limit` passes. -/
def unfold (table : IndexedTable) (symbol : Symbol) (limit : Nat) :
    Except GrammarError Unit × IndexedTable :=
  match table.forcedCycle? symbol with
  | some path => (.error (.unfoldCycle symbol 0 path), table)
  | none => unfoldPasses symbol limit limit table

/-- Resolves the forced references of several symbols, up to the first that fails. -/
def unfoldEach (limit : Nat) : List Symbol → IndexedTable → Except GrammarError Unit × IndexedTable
  | [], table => (.ok (), table)
  | symbol :: rest, table =>
    match table.unfold symbol limit with
    | (.error error, table) => (.error error, table)
    | (.ok (), table) => unfoldEach limit rest table

/-- Resolves the forced references of every symbol that was defined with some. -/
def unfoldAll (table : IndexedTable) (limit : Nat) : Except GrammarError Unit × IndexedTable :=
  unfoldEach limit table.forced { table with forced := [] }

/-! ## The table behind it -/

/-- Which table an indexed one stands for. -/
structure Represents (indexed : IndexedTable) (table : Table) : Prop where
  order_eq : indexed.order = table.symbols
  get?_eq : ∀ symbol, indexed.get? symbol = table.get? symbol
  forced_eq : indexed.forced = table.forced

/-- Two ways to make a table end alike. -/
inductive RepresentsResult :
    Except GrammarError IndexedTable → Except GrammarError Table → Prop where
  | ok {indexed : IndexedTable} {table : Table} (h : indexed.Represents table) :
      RepresentsResult (.ok indexed) (.ok table)
  | error (error : GrammarError) : RepresentsResult (.error error) (.error error)

/-- Two ways to work on a table have the same outcome, and leave tables that belong together. -/
structure RepresentsRun (run : Except GrammarError Unit × IndexedTable)
    (run' : Except GrammarError Unit × Table) : Prop where
  result_eq : run.1 = run'.1
  represents : run.2.Represents run'.2

variable {indexed : IndexedTable} {table table' : Table}

/-- Going on with tables that belong together. -/
theorem RepresentsResult.bind {first : Except GrammarError IndexedTable}
    {first' : Except GrammarError Table} {next : IndexedTable → Except GrammarError IndexedTable}
    {next' : Table → Except GrammarError Table} (h : RepresentsResult first first')
    (hnext : ∀ {indexed : IndexedTable} {table : Table}, indexed.Represents table →
      RepresentsResult (next indexed) (next' table)) :
    RepresentsResult (first >>= next) (first' >>= next') := by
  cases h with
  | ok h => exact hnext h
  | error error => exact .error error

theorem represents_empty : empty.Represents Table.empty :=
  ⟨rfl, fun _ => Std.HashMap.getElem?_empty, rfl⟩

theorem contains_eq_isSome (indexed : IndexedTable) (symbol : Symbol) :
    indexed.contains symbol = (indexed.get? symbol).isSome :=
  Std.HashMap.contains_eq_isSome_getElem?

namespace Represents

theorem contains_eq (h : indexed.Represents table) (symbol : Symbol) :
    indexed.contains symbol = table.contains symbol := by
  rw [contains_eq_isSome, h.get?_eq, Table.contains]

/-- Going through the order gives the rows, if no symbol has two of them. -/
theorem entries_eq_rows (h : indexed.Represents table) (hdistinct : table.symbols.Nodup) :
    indexed.entries = table.rows := by
  have hself : ∀ row ∈ table.rows,
      ((indexed.get? row.1).map fun production => (row.1, production)) = some row := by
    rintro ⟨symbol, production⟩ hrow
    rw [h.get?_eq, (Table.get?_eq_some_iff hdistinct).2 hrow]
    rfl
  rw [entries, h.order_eq, Table.symbols, List.filterMap_map]
  exact (List.filterMap_congr hself).trans List.filterMap_some

/-- An indexed table stands for one table only. -/
theorem eq (h : indexed.Represents table) (h' : indexed.Represents table')
    (hdistinct : table.symbols.Nodup) : table = table' := by
  have hsymbols : table.symbols = table'.symbols := h.order_eq.symm.trans h'.order_eq
  have halternatives : ∀ symbol, table.alternatives symbol = table'.alternatives symbol := by
    intro symbol
    rw [Table.alternatives, Table.alternatives, ← h.get?_eq, h'.get?_eq]
  have hrows : table.rows = table'.rows := by
    rw [Table.rows_eq_map_symbols hdistinct, Table.rows_eq_map_symbols (hsymbols ▸ hdistinct),
      hsymbols]
    exact List.map_congr_left fun symbol _ => by rw [halternatives]
  exact congrArg₂ Table.mk hrows (h.forced_eq.symm.trans h'.forced_eq)

/-! ## Every operation keeps it -/

theorem insert (h : indexed.Represents table) (symbol : Symbol) (production : Production) :
    RepresentsResult (indexed.insert symbol production) (table.insert symbol production) := by
  rw [IndexedTable.insert, Table.insert, h.contains_eq]
  by_cases hdefined : table.contains symbol = true
  · rw [if_pos hdefined, if_pos hdefined]
    exact .error _
  · rw [if_neg hdefined, if_neg hdefined]
    have hnew : table.get? symbol = none := by
      rwa [Table.contains, Option.not_isSome_iff_eq_none] at hdefined
    refine .ok ⟨?_, fun symbol' => ?_, ?_⟩
    · rw [h.order_eq, Table.symbols, Table.symbols, List.map_append, List.map_cons, List.map_nil]
    · have hget := h.get?_eq symbol'
      simp only [IndexedTable.get?, Table.get?] at hget hnew ⊢
      rw [Std.HashMap.getElem?_insert, List.lookup_append, hget]
      by_cases heq : symbol = symbol'
      · subst heq
        simp [hnew]
      · simp [heq, List.lookup_cons, beq_eq_false_iff_ne.2 (Ne.symm heq)]
    · rw [h.forced_eq]

theorem replace (h : indexed.Represents table) (symbol : Symbol)
    (alternatives : List Alternative) :
    (indexed.replace symbol alternatives).Represents (table.replace symbol alternatives) := by
  refine ⟨?_, fun symbol' => ?_, h.forced_eq⟩
  · rw [Table.symbols_replace]
    exact h.order_eq
  · have hget := h.get?_eq
    simp only [IndexedTable.get?] at hget
    rw [Table.get?_replace, IndexedTable.get?, IndexedTable.replace, Std.HashMap.getElem?_modify,
      hget, hget]
    by_cases heq : symbol = symbol'
    · subst heq
      simp
    · simp [heq, Ne.symm heq]

theorem define (h : indexed.Represents table) (definition : Definition) :
    RepresentsResult (indexed.define definition) (definition.addTo table) := by
  unfold IndexedTable.define Definition.addTo
  cases Symbol.parse? definition.name with
  | none => exact .error _
  | some symbol =>
    simp only
    split_ifs
    · exact .error _
    · exact h.insert symbol (Production.parse definition.content)

theorem foldlM_define (h : indexed.Represents table) (definitions : List Definition) :
    RepresentsResult (definitions.foldlM IndexedTable.define indexed)
      (definitions.foldlM (fun table d => d.addTo table) table) := by
  induction definitions generalizing indexed table with
  | nil => exact .ok h
  | cons definition rest ih =>
    rw [List.foldlM_cons, List.foldlM_cons]
    exact (h.define definition).bind ih

/-! ## Resolving goes through the map -/

theorem forcedReferences_eq (h : indexed.Represents table) (symbol : Symbol) :
    indexed.forcedReferences symbol = table.forcedReferences symbol := by
  unfold IndexedTable.forcedReferences
  rw [h.get?_eq]
  rfl

/-- The induction is on the walk through the rows, case by case. -/
theorem walkForced_eq (h : indexed.Represents table) (path references done : List Symbol) :
    indexed.walkForced path references done = table.walkForced path references done := by
  induction path, references, done using Table.walkForced.induct table with
  | case1 path done => rw [IndexedTable.walkForced, Table.walkForced]
  | case2 path symbol rest done hpath =>
    rw [IndexedTable.walkForced, Table.walkForced, dif_pos hpath, dif_pos hpath]
  | case3 path symbol rest done hpath hdone ih =>
    rw [IndexedTable.walkForced, Table.walkForced, dif_neg hpath, dif_neg hpath, if_pos hdone,
      if_pos hdone, ih]
  | case4 path symbol rest done hpath hdone hdef cycle hinner ih =>
    rw [IndexedTable.walkForced, Table.walkForced, dif_neg hpath, dif_neg hpath, if_neg hdone,
      if_neg hdone, dif_pos (h.contains_eq symbol ▸ hdef), dif_pos hdef, h.forcedReferences_eq, ih,
      hinner]
  | case5 path symbol rest done hpath hdone hdef done' hinner ih ihrest =>
    rw [IndexedTable.walkForced, Table.walkForced, dif_neg hpath, dif_neg hpath, if_neg hdone,
      if_neg hdone, dif_pos (h.contains_eq symbol ▸ hdef), dif_pos hdef, h.forcedReferences_eq, ih,
      hinner]
    exact ihrest
  | case6 path symbol rest done hpath hdone hdef ih =>
    rw [IndexedTable.walkForced, Table.walkForced, dif_neg hpath, dif_neg hpath, if_neg hdone,
      if_neg hdone, dif_neg (h.contains_eq symbol ▸ hdef), dif_neg hdef, ih]

theorem forcedCycle?_eq (h : indexed.Represents table) (symbol : Symbol) :
    indexed.forcedCycle? symbol = table.forcedCycle? symbol := by
  unfold IndexedTable.forcedCycle?
  rw [h.forcedReferences_eq, h.walkForced_eq]
  rfl

theorem unfoldPass_eq (h : indexed.Represents table) (symbol : Symbol) (as : List Alternative) :
    indexed.unfoldPass symbol as = table.unfoldPass symbol as := by
  have halternative : ∀ a,
      indexed.unfoldAlternative symbol a = table.unfoldAlternative symbol a := by
    intro a
    unfold IndexedTable.unfoldAlternative
    simp only [h.get?_eq]
    rfl
  induction as with
  | nil => rfl
  | cons a rest ih => rw [IndexedTable.unfoldPass, Table.unfoldPass, halternative, ih]

theorem unfoldPasses (h : indexed.Represents table) (symbol : Symbol) (limit left : Nat) :
    RepresentsRun (IndexedTable.unfoldPasses symbol limit left indexed)
      (Table.unfoldPasses symbol limit left table) := by
  induction left generalizing indexed table with
  | zero =>
    unfold IndexedTable.unfoldPasses Table.unfoldPasses
    rw [h.get?_eq]
    cases table.get? symbol with
    | none => exact ⟨rfl, h⟩
    | some production =>
      simp only
      split_ifs
      · exact ⟨rfl, h⟩
      · exact ⟨rfl, h⟩
  | succ left ih =>
    unfold IndexedTable.unfoldPasses Table.unfoldPasses
    rw [h.get?_eq]
    cases table.get? symbol with
    | none => exact ⟨rfl, h⟩
    | some production =>
      simp only [h.unfoldPass_eq]
      split_ifs
      · cases table.unfoldPass symbol production.alternatives with
        | error error => exact ⟨rfl, h⟩
        | ok alternatives => exact ih (h.replace symbol alternatives)
      · exact ⟨rfl, h⟩

theorem unfold (h : indexed.Represents table) (symbol : Symbol) (limit : Nat) :
    RepresentsRun (indexed.unfold symbol limit) (table.unfold symbol limit) := by
  unfold IndexedTable.unfold Table.unfold
  rw [h.forcedCycle?_eq]
  cases table.forcedCycle? symbol with
  | some path => exact ⟨rfl, h⟩
  | none => exact h.unfoldPasses symbol limit limit

theorem unfoldEach (h : indexed.Represents table) (limit : Nat) (symbols : List Symbol) :
    RepresentsRun (IndexedTable.unfoldEach limit symbols indexed)
      (Table.unfoldEach limit symbols table) := by
  induction symbols generalizing indexed table with
  | nil => exact ⟨rfl, h⟩
  | cons symbol rest ih =>
    have hfirst := h.unfold symbol limit
    unfold IndexedTable.unfoldEach Table.unfoldEach
    generalize indexed.unfold symbol limit = run at hfirst ⊢
    generalize table.unfold symbol limit = run' at hfirst ⊢
    obtain ⟨result, next⟩ := run
    obtain ⟨result', next'⟩ := run'
    obtain ⟨rfl, hnext⟩ := hfirst
    cases result with
    | error error => exact ⟨rfl, hnext⟩
    | ok => exact ih hnext

/-- The symbols that wait are taken from both alike. -/
theorem takeForced (h : indexed.Represents table) :
    Represents { indexed with forced := [] } { table with forced := [] } :=
  ⟨h.order_eq, h.get?_eq, rfl⟩

theorem unfoldAll (h : indexed.Represents table) (limit : Nat) :
    RepresentsRun (indexed.unfoldAll limit) (table.unfoldAll limit) := by
  rw [IndexedTable.unfoldAll, Table.unfoldAll, h.forced_eq]
  exact h.takeForced.unfoldEach limit table.forced

end Represents

/-- A source is read alike. -/
theorem representsResult_parse (source : Text) :
    RepresentsResult (IndexedTable.parse source) (Table.parse source) := by
  have hread := represents_empty.foldlM_define (Table.definitions source)
  refine hread.bind fun {indexed table} h => ?_
  rw [h.contains_eq]
  split_ifs
  · exact .ok h
  · exact .error _

end IndexedTable

end TextGrammar
