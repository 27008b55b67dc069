import TextGrammar.Grammar.Basic
import TextGrammar.Proofs.Expansion.Replies
import TextGrammar.Proofs.Forced.CrossProduct
import TextGrammar.Proofs.Forced.Language
import TextGrammar.Proofs.IndexedTables

/-!
# Reachable tables

A table is reachable if a source is read as it, or if some request to resolve forced references
leaves it behind, whether the request succeeds or not.

* `Table.Reachable.induction`: what reading guarantees, and what a pass and forgetting the
  unresolved symbols keep, holds of every reachable table.
* `Table.WellFormed` is the invariant, and `Table.Reachable.wellFormed` that it holds.
* `Table.WellFormed.inRange`: with a source in range, no call of an expansion goes out of range.
* `Table.AsRead.finished`: nothing is left to resolve once all that waited for it is resolved.
* `IndexedTable.Reachable.exists_table`: whatever can be reached with an index stands for a table
  that can be reached.
* `IndexedTable.reachable_invariant` is the result. It is about the map and the order themselves.
-/

namespace TextGrammar

namespace Table

/-- What a source is read as, after any requests to resolve forced references, whatever their
outcomes are. -/
inductive Reachable : Table → Prop where
  | read {source : Text} {table : Table} (hparse : Table.parse source = .ok table) :
      Reachable table
  | run {table : Table} (h : Reachable table) (call : UnfoldCall) : Reachable (call.run table).2

variable {table table' : Table} {symbol : Symbol}

theorem Reachable.induction {P : Table → Prop}
    (hread : ∀ {source table}, Table.parse source = .ok table → P table)
    (hstep : ∀ {table table'}, P table → Step table table' → P table')
    (hclear : ∀ {table : Table}, P table → P { table with forced := [] })
    (h : Reachable table) : P table := by
  have hsteps : ∀ {table table'}, P table → Relation.ReflTransGen Step table table' →
      P table' :=
    keeps_of_steps fun htable hpass => hstep htable ⟨_, hpass⟩
  induction h with
  | read hparse => exact hread hparse
  | @run table _ call ih =>
    cases call with
    | one symbol limit => exact hsteps ih (steps_unfold table symbol limit)
    | all limit => exact hsteps (hclear ih) (steps_unfoldEach limit _ _)

/-! ## The invariant -/

/-- What holds of a table throughout. -/
structure WellFormed (table : Table) : Prop where
  /-- No symbol has two rows. -/
  distinct : table.symbols.Nodup
  /-- The start symbol is defined. -/
  start : Symbol.start ∈ table.symbols
  /-- Every symbol has a well-formed name. -/
  valid : ∀ symbol ∈ table.symbols, symbol.Valid
  /-- Only symbols of the table wait to be resolved. -/
  forced : ∀ symbol ∈ table.forced, symbol ∈ table.symbols
  /-- Every symbol has an alternative. -/
  inhabited : ∀ symbol ∈ table.symbols, table.alternatives symbol ≠ []
  /-- No literal is empty, and no two are adjacent. -/
  canonical : table.Canonical
  /-- Only well-formed names are referred to. -/
  references : ∀ symbol, ∀ a ∈ table.alternatives symbol, ∀ reference ∈ a.references,
    reference.Valid

theorem exists_row_of_mem_symbols (h : symbol ∈ table.symbols) :
    ∃ row ∈ table.rows, row.1 = symbol ∧ table.alternatives symbol = row.2.alternatives := by
  rw [← contains_iff_mem_symbols] at h
  obtain ⟨production, hget⟩ := Option.isSome_iff_exists.1 h
  exact ⟨_, mem_rows_of_get? hget, rfl, alternatives_of_get? hget⟩

theorem AsRead.wellFormed (h : table.AsRead) (hstart : table.contains Symbol.start = true) :
    table.WellFormed := by
  constructor
  · exact h.distinct
  · exact contains_iff_mem_symbols.1 hstart
  · exact h.valid
  · intro symbol hsymbol
    rw [h.forced_eq] at hsymbol
    obtain ⟨row, hrow, rfl⟩ := List.mem_map.1 hsymbol
    exact List.mem_map_of_mem (List.mem_filter.1 hrow).1
  · intro symbol hsymbol
    obtain ⟨row, hrow, -, hrow'⟩ := exists_row_of_mem_symbols hsymbol
    rw [hrow']
    exact (h.productions row hrow).inhabited
  · exact h.canonical_alternatives
  · intro symbol a ha
    obtain ⟨production, hrow, hmem⟩ := exists_mem_rows_of_mem_alternatives ha
    exact (h.productions _ hrow).references a hmem

/-- A pass puts something in place of every alternative, since it finds all targets and none of them
is without alternatives. -/
theorem WellFormed.resolved_ne_nil (h : table.WellFormed) (hpass : Pass symbol table table')
    {a : Alternative} (ha : a ∈ table.alternatives symbol) : table.resolved a ≠ [] := by
  cases hfirst : a.firstForced? with
  | none =>
    rw [resolved_of_firstForced?_eq_none hfirst]
    exact List.cons_ne_nil a []
  | some found =>
    obtain ⟨index, reference⟩ := found
    have hreference := contains_iff_mem_symbols.1 (hpass.contains_of_firstForced? ha hfirst)
    rw [resolved_of_firstForced? hfirst]
    intro hnil
    exact h.inhabited reference hreference (List.map_eq_nil_iff.1 hnil)

theorem WellFormed.pass (h : table.WellFormed) (hpass : Pass symbol table table') :
    table'.WellFormed := by
  have hsymbols := hpass.symbols_eq
  constructor
  · rw [hsymbols]
    exact h.distinct
  · rw [hsymbols]
    exact h.start
  · rw [hsymbols]
    exact h.valid
  · rw [hsymbols, hpass.forced_eq]
    exact h.forced
  · intro symbol' hsymbol'
    rw [hsymbols] at hsymbol'
    rw [hpass.alternatives_eq]
    by_cases heq : symbol' = symbol
    · subst heq
      rw [if_pos rfl]
      obtain ⟨a, rest, ha⟩ := List.exists_cons_of_ne_nil (h.inhabited symbol' hsymbol')
      rw [ha, List.flatMap_cons]
      intro hnil
      exact h.resolved_ne_nil hpass (ha ▸ List.mem_cons_self) (List.append_eq_nil_iff.1 hnil).1
    · rw [if_neg heq]
      exact h.inhabited symbol' hsymbol'
  · exact h.canonical.pass hpass
  · intro symbol' b hb reference hreference
    rw [hpass.alternatives_eq] at hb
    by_cases heq : symbol' = symbol
    · rw [if_pos heq] at hb
      obtain ⟨a, ha, hba⟩ := List.mem_flatMap.1 hb
      rcases mem_filterMap_of_mem_resolved (fun _ => rfl) hba hreference with
        hold | ⟨target, -, choice, hchoice, hnew⟩
      · exact h.references symbol a ha reference hold
      · exact h.references target choice hchoice reference hnew
    · rw [if_neg heq] at hb
      exact h.references symbol' b hb reference hreference

theorem WellFormed.clear (h : table.WellFormed) :
    Table.WellFormed { table with forced := [] } :=
  { h with forced := by simp }

theorem Reachable.wellFormed (h : table.Reachable) : table.WellFormed := by
  refine h.induction ?_ ?_ WellFormed.clear
  · intro source table hparse
    exact (asRead_of_parse hparse).wellFormed (foldlM_of_parse hparse).2
  · rintro table table' htable ⟨symbol, hpass⟩
    exact htable.pass hpass

end Table

/-! ## Choices in range -/

section InRange

variable {σ : Type}

/-- Every choice of a run is one of the alternatives there are. -/
structure Outcome.InRange (run : Outcome σ) : Prop where
  steps : ∀ step ∈ run.steps, step.choice < step.alternatives
  result : ∀ symbol choice alternatives,
    run.result ≠ .error (.choiceOutOfRange symbol choice alternatives)

theorem Outcome.InRange.andThen {first : Outcome σ} {second : σ → Outcome σ}
    (hfirst : first.InRange) (hsecond : ∀ source, (second source).InRange) :
    (first.andThen second).InRange := by
  rcases Outcome.andThen_cases first second with ⟨error, -, heq⟩ | ⟨text, -, heq⟩
  · rw [heq]
    exact hfirst
  · rw [heq]
    refine ⟨List.forall_mem_append.2 ⟨hfirst.steps, (hsecond _).steps⟩, ?_⟩
    intro symbol choice alternatives
    have hresult := (hsecond first.source).result symbol choice alternatives
    show (second first.source).result.map (text ++ ·) ≠ _
    cases hrun : (second first.source).result with
    | ok after => exact nofun
    | error error =>
      rw [hrun] at hresult
      exact hresult

end InRange

namespace Table

variable {σ : Type} [RandomSource σ] [LawfulRandomSource σ] {table table' : Table}

theorem WellFormed.lt_of_pick (h : table.WellFormed) {symbol : Symbol} {production : Production}
    {choice : Nat} {source next : σ} (hget : table.get? symbol = some production)
    (hpick : RandomSource.pick source production.size = (choice, next)) :
    choice < production.size := by
  have hne := h.inhabited symbol (mem_symbols_of_get? hget)
  rw [alternatives_of_get? hget] at hne
  have hlt := LawfulRandomSource.pick_lt source production.size (List.length_pos_iff.2 hne)
  rwa [hpick] at hlt

/-- With a source in range, no call goes out of range. -/
theorem WellFormed.inRange (h : table.WellFormed) {limit left : Nat} {stack : List Symbol}
    {symbol : Symbol} {source : σ} {run : Outcome σ}
    (hcall : table.Call limit left stack symbol source run) : run.InRange := by
  induction hcall with
  | undefined => exact ⟨nofun, nofun⟩
  | full => exact ⟨nofun, nofun⟩
  | outOfRange left hget hpick hchoice =>
    exact absurd (h.lt_of_pick hget hpick) (Nat.not_lt.2 (List.getElem?_eq_none_iff.1 hchoice))
  | @chosen _ _ _ next _ _ a left hget hpick _ _ ih =>
    have hinner := expandSegments_induction (P := fun _ run => run.InRange)
      (fun _ _ => ⟨nofun, nofun⟩) Outcome.InRange.andThen ih a.segments next
    exact ⟨List.forall_mem_cons.2 ⟨h.lt_of_pick hget hpick, hinner.steps⟩, hinner.result⟩

/-- A run asks for a choice among something, and gets one of it. -/
theorem WellFormed.lt_of_mem_picks (h : table.WellFormed) {limit : Nat} {symbol : Symbol}
    {source : σ} {asked : Pick}
    (hasked : asked ∈ (table.expand limit symbol (Journal.start source)).source.picks) :
    0 < asked.length ∧ asked.choice < asked.length := by
  rw [expand_journal] at hasked
  obtain ⟨step, hstep, rfl⟩ := List.mem_map.1 hasked
  have hlt : step.choice < step.alternatives :=
    (h.inRange (table.call_visit limit limit [] symbol source)).steps step hstep
  exact ⟨Nat.zero_lt_of_lt hlt, hlt⟩

/-! ## Nothing left to resolve -/

/-- No symbol waits to be resolved, and no forced reference is left. -/
structure Finished (table : Table) : Prop where
  forced : table.forced = []
  segments : ∀ symbol, ∀ a ∈ table.alternatives symbol, ∀ target,
    Segment.forced target ∉ a.segments

theorem AsRead.finished {limit : Nat} (h : table.AsRead)
    (hunfold : table.unfoldAll limit = (.ok (), table')) : table'.Finished := by
  constructor
  · exact forced_eq_of_steps (steps_of_unfoldAll hunfold)
  · intro symbol a ha target htarget
    have hnot := h.resolved_of_unfoldEach (fun _ hmem => hmem) hunfold symbol a ha
    rw [Alternative.hasForced_iff.2 ⟨target, htarget⟩] at hnot
    cases hnot

theorem mem_alternatives_iff {symbol : Symbol} {a : Alternative} :
    a ∈ table.alternatives symbol ↔
      ∃ production, table.get? symbol = some production ∧ a ∈ production.alternatives := by
  unfold alternatives
  cases table.get? symbol with
  | none => simp
  | some production => simp

/-- What a grammar is, or why there is none, shows in the table that is read. -/
theorem compileWith_of_parse {limits : Limits} {source : Text}
    (hparse : Table.parse (desugar source) = .ok table) :
    Grammar.compileWith limits source =
      (table.unfoldAll limits.maxUnfoldPasses).1.map fun _ =>
        ⟨(table.unfoldAll limits.maxUnfoldPasses).2, Symbol.start, limits⟩ := by
  rw [Grammar.compileWith, hparse]
  simp only [bind, Except.bind]
  rcases table.unfoldAll limits.maxUnfoldPasses with ⟨error | _, next⟩
  · rfl
  · rfl

/-- The table of a grammar is what remains after resolving all that was read. -/
theorem exists_unfoldAll_of_compileWith {limits : Limits} {source : Text} {grammar : Grammar}
    (h : Grammar.compileWith limits source = .ok grammar) :
    ∃ table, Table.parse (desugar source) = .ok table ∧
      table.unfoldAll limits.maxUnfoldPasses = (.ok (), grammar.table) := by
  unfold Grammar.compileWith at h
  cases hparse : Table.parse (desugar source) with
  | error error =>
    rw [hparse] at h
    cases h
  | ok table =>
    rw [hparse] at h
    refine ⟨table, rfl, ?_⟩
    cases hunfold : table.unfoldAll limits.maxUnfoldPasses with
    | mk result table' =>
      simp only [bind, Except.bind, hunfold] at h
      cases result with
      | error error => cases h
      | ok =>
        cases h
        rfl

end Table

/-! ## Indexed tables -/

namespace IndexedTable

/-- Carries a request out. Gives its outcome and the table it leaves. -/
def run (indexed : IndexedTable) : UnfoldCall → Except GrammarError Unit × IndexedTable
  | .one symbol limit => indexed.unfold symbol limit
  | .all limit => indexed.unfoldAll limit

/-- What a source is read as, after any requests to resolve forced references, whatever their
outcomes are. -/
inductive Reachable : IndexedTable → Prop where
  | read {source : Text} {indexed : IndexedTable} (hparse : parse source = .ok indexed) :
      Reachable indexed
  | run {indexed : IndexedTable} (h : Reachable indexed) (call : UnfoldCall) :
      Reachable (indexed.run call).2

/-- No symbol waits to be resolved, and no forced reference is left. -/
structure Finished (indexed : IndexedTable) : Prop where
  forced : indexed.forced = []
  segments : ∀ symbol production, indexed.get? symbol = some production →
    ∀ a ∈ production.alternatives, ∀ target, Segment.forced target ∉ a.segments

variable {indexed : IndexedTable} {table : Table} {source : Text}

theorem Represents.run (h : indexed.Represents table) (call : UnfoldCall) :
    RepresentsRun (indexed.run call) (call.run table) := by
  cases call with
  | one symbol limit => exact h.unfold symbol limit
  | all limit => exact h.unfoldAll limit

theorem Represents.finished (h : indexed.Represents table) (hfinished : table.Finished) :
    indexed.Finished := by
  refine ⟨h.forced_eq.trans hfinished.forced, fun symbol production hget a ha => ?_⟩
  rw [h.get?_eq] at hget
  exact hfinished.segments symbol a (Table.alternatives_of_get? hget ▸ ha)

theorem exists_table_of_parse (h : parse source = .ok indexed) :
    ∃ table, Table.parse source = .ok table ∧ indexed.Represents table := by
  have hresult := representsResult_parse source
  rw [h] at hresult
  generalize hparse : Table.parse source = parsed at hresult
  cases hresult with
  | ok hrepresents => exact ⟨_, rfl, hrepresents⟩

theorem exists_parse_of_table (h : Table.parse source = .ok table) :
    ∃ indexed, parse source = .ok indexed ∧ indexed.Represents table := by
  have hresult := representsResult_parse source
  rw [h] at hresult
  generalize hparse : parse source = parsed at hresult
  cases hresult with
  | ok hrepresents => exact ⟨_, rfl, hrepresents⟩

/-- Whatever can be reached with the index can be reached without it. -/
theorem Reachable.exists_table (h : indexed.Reachable) :
    ∃ table, table.Reachable ∧ indexed.Represents table := by
  induction h with
  | read hparse =>
    obtain ⟨table, htable, hrepresents⟩ := exists_table_of_parse hparse
    exact ⟨table, .read htable, hrepresents⟩
  | run _ call ih =>
    obtain ⟨table, hreachable, hrepresents⟩ := ih
    exact ⟨_, hreachable.run call, (hrepresents.run call).represents⟩

/-! ## The result -/

/-- What holds of every table throughout. The order of the definitions lists every key of the map
once and nothing else, so the entries are the rows of the map in that order; `$s` is a key; there is
no symbol without alternatives, no empty literal and no literal next to another; and all names are
well formed. Read from a source, a table has exactly the symbols with forced references waiting, in
the order of their definitions, and none is left once all are resolved, as they are in a grammar. So
no expansion asks for a choice among nothing, or goes out of range, if its source does not. -/
theorem reachable_invariant :
    (∀ indexed : IndexedTable, indexed.Reachable →
      indexed.order.Nodup ∧
      (∀ symbol, symbol ∈ indexed.order ↔ symbol ∈ indexed.productions) ∧
      indexed.entries.map Prod.fst = indexed.order ∧
      (∀ symbol production, (symbol, production) ∈ indexed.entries ↔
        indexed.get? symbol = some production) ∧
      Symbol.start ∈ indexed.productions ∧
      (∀ symbol production, indexed.get? symbol = some production →
        production.alternatives ≠ [] ∧ ∀ a ∈ production.alternatives, a.Separated ∧
          ∀ reference ∈ a.references, Symbol.parse? reference.name = some reference) ∧
      (∀ symbol ∈ indexed.order ++ indexed.forced, Symbol.parse? symbol.name = some symbol) ∧
      (∃ table : Table, table.Reachable ∧ indexed.Represents table) ∧
      ∀ (σ : Type) [RandomSource σ] [LawfulRandomSource σ] (expander : Expander) (symbol : Symbol)
        (source : σ), indexed.Represents expander.table →
          (∀ asked ∈ (expander.expand symbol (Journal.start source)).2.2.picks,
            0 < asked.length ∧ asked.choice < asked.length) ∧
          ∀ symbol' choice alternatives, (expander.expand symbol source).1 ≠
            .error (.choiceOutOfRange symbol' choice alternatives)) ∧
    (∀ (source : Text) (indexed : IndexedTable), parse source = .ok indexed →
      indexed.forced.Sublist indexed.order ∧
      (∀ symbol, symbol ∈ indexed.forced ↔
        ∃ production, indexed.get? symbol = some production ∧
          ∃ a ∈ production.alternatives, ∃ target, Segment.forced target ∈ a.segments) ∧
      ∀ limit last, indexed.unfoldAll limit = (.ok (), last) → last.Finished) ∧
    ∀ (limits : Limits) (source : Text) (grammar : Grammar),
      Grammar.compileWith limits source = .ok grammar →
        ∃ indexed last, parse (desugar source) = .ok indexed ∧
          indexed.unfoldAll limits.maxUnfoldPasses = (.ok (), last) ∧
          last.Represents grammar.table ∧ last.Reachable ∧ last.Finished := by
  refine ⟨?_, ?_, ?_⟩
  · intro indexed hreachable
    obtain ⟨table, htable, hrepresents⟩ := hreachable.exists_table
    have h := htable.wellFormed
    have hentries := hrepresents.entries_eq_rows h.distinct
    have hkeys : ∀ symbol, symbol ∈ indexed.productions ↔ symbol ∈ table.symbols := by
      intro symbol
      rw [Std.HashMap.mem_iff_contains, ← Table.contains_iff_mem_symbols,
        ← hrepresents.contains_eq, IndexedTable.contains]
    refine ⟨?_, ?_, ?_, ?_, (hkeys _).2 h.start, ?_, ?_, ⟨table, htable, hrepresents⟩, ?_⟩
    · rw [hrepresents.order_eq]
      exact h.distinct
    · intro symbol
      rw [hkeys, hrepresents.order_eq]
    · rw [hentries, hrepresents.order_eq]
      rfl
    · intro symbol production
      rw [hentries, hrepresents.get?_eq, Table.get?_eq_some_iff h.distinct]
    · intro symbol production hget
      rw [hrepresents.get?_eq] at hget
      have hinhabited := h.inhabited symbol (Table.mem_symbols_of_get? hget)
      have hcanonical := h.canonical symbol
      have hreferences := h.references symbol
      rw [Table.alternatives_of_get? hget] at hinhabited hcanonical hreferences
      exact ⟨hinhabited, fun a ha => ⟨(hcanonical a ha).separated,
        fun reference hmem => (hreferences a ha reference hmem).parse?⟩⟩
    · intro symbol hsymbol
      rw [hrepresents.order_eq, hrepresents.forced_eq] at hsymbol
      rcases List.mem_append.1 hsymbol with hmem | hforced
      · exact (h.valid symbol hmem).parse?
      · exact (h.valid symbol (h.forced symbol hforced)).parse?
    · intro σ _ _ expander symbol source hexpander
      obtain rfl := hrepresents.eq hexpander h.distinct
      exact ⟨fun asked => h.lt_of_mem_picks,
        (h.inRange (expander.table.call_visit ..)).result⟩
  · intro source indexed hparse
    obtain ⟨table, htable, hrepresents⟩ := exists_table_of_parse hparse
    have h := Table.asRead_of_parse htable
    refine ⟨?_, ?_, ?_⟩
    · rw [hrepresents.forced_eq, hrepresents.order_eq, h.forced_eq]
      exact List.filter_sublist.map Prod.fst
    · intro symbol
      rw [hrepresents.forced_eq, h.mem_forced_iff]
      simp only [hrepresents.get?_eq, Table.mem_alternatives_iff, Alternative.hasForced_iff]
      tauto
    · intro limit last hunfold
      obtain ⟨hresult, hlast⟩ := hrepresents.unfoldAll limit
      rw [hunfold] at hresult hlast
      exact hlast.finished (h.finished (Prod.ext hresult.symm rfl))
  · intro limits source grammar hcompile
    obtain ⟨table, hparse, hunfold⟩ := Table.exists_unfoldAll_of_compileWith hcompile
    obtain ⟨indexed, hindexed, hrepresents⟩ := exists_parse_of_table hparse
    obtain ⟨hresult, hlast⟩ := hrepresents.unfoldAll limits.maxUnfoldPasses
    rw [hunfold] at hresult hlast
    exact ⟨indexed, _, hindexed, Prod.ext hresult rfl, hlast,
      (Reachable.read hindexed).run (.all limits.maxUnfoldPasses),
      hlast.finished ((Table.asRead_of_parse hparse).finished hunfold)⟩

/-- The table that `Table.nestedSource` is read as. -/
def nestedIndexed : IndexedTable :=
  (parse Table.nestedSource).toOption.getD empty

/-- What is left of it after one pass for `$s`, which is too few, and as many for `$c` as it
takes. -/
def halfwayIndexed : IndexedTable :=
  ((nestedIndexed.run (.all 1)).2.run (.one (.ofIdentifier ['c']) 6)).2

/-- The same without the index. -/
def halfway : Table :=
  ((UnfoldCall.one (.ofIdentifier ['c']) 6).run ((UnfoldCall.all 1).run Table.nested).2).2

/-- The grammar of the same source. -/
def nestedGrammar : Grammar :=
  ⟨(Table.nested.unfoldAll 6).2, .start, ⟨4, 6⟩⟩

theorem halfway_invariant :
    (parse Table.nestedSource = .ok nestedIndexed ∧
      (nestedIndexed.run (.all 1)).1 = .error (.unfoldCycle .start 1 []) ∧
      halfwayIndexed.Reachable ∧ halfwayIndexed.order.Nodup ∧
      (∀ symbol, symbol ∈ halfwayIndexed.order ↔ symbol ∈ halfwayIndexed.productions) ∧
      halfwayIndexed.entries.map Prod.fst = halfwayIndexed.order ∧
      Symbol.start ∈ halfwayIndexed.productions ∧
      (∀ symbol production, halfwayIndexed.get? symbol = some production →
        production.alternatives ≠ [] ∧ ∀ a ∈ production.alternatives, a.Separated ∧
          ∀ reference ∈ a.references, Symbol.parse? reference.name = some reference) ∧
      halfwayIndexed.Represents halfway ∧
      ((Expander.new halfway 4).expand .start
        (Journal.start (Script.ofList [0, 2]))).2.2.picks = [⟨2, 0⟩, ⟨3, 2⟩] ∧
      ∀ asked ∈ ((Expander.new halfway 4).expand .start
          (Journal.start (Script.ofList [0, 2]))).2.2.picks,
        0 < asked.length ∧ asked.choice < asked.length) ∧
    (nestedIndexed.forced.Sublist nestedIndexed.order ∧
      (nestedIndexed.unfoldAll 6).1 = .ok () ∧ (nestedIndexed.unfoldAll 6).2.Finished) ∧
    Grammar.compileWith ⟨4, 6⟩ Table.nestedSource = .ok nestedGrammar ∧
      ∃ last : IndexedTable, last.Represents nestedGrammar.table ∧ last.Finished := by
  obtain ⟨hinvariant, hresolve, hcompile⟩ := reachable_invariant
  have htable : Table.parse Table.nestedSource = .ok Table.nested := by decide +kernel
  obtain ⟨indexed, hread, hrepresents⟩ := exists_parse_of_table htable
  have hindexed : indexed = nestedIndexed := by rw [nestedIndexed, hread]; rfl
  subst hindexed
  have hall := hrepresents.run (.all 1)
  have hfails : ((UnfoldCall.all 1).run Table.nested).1 = .error (.unfoldCycle .start 1 []) := by
    rw [UnfoldCall.run, Table.acyclic_nested.unfoldAll_eq]
    decide +kernel
  have hone := hall.represents.run (.one (.ofIdentifier ['c']) 6)
  have hok : (Table.nested.unfoldAll 6).1 = .ok () := by
    rw [Table.acyclic_nested.unfoldAll_eq]
    decide +kernel
  have hresolved := (hrepresents.unfoldAll 6).result_eq.trans hok
  have hdesugar : desugar Table.nestedSource = Table.nestedSource := by decide +kernel
  have hgrammar : Grammar.compileWith ⟨4, 6⟩ Table.nestedSource = .ok nestedGrammar := by
    rw [Table.compileWith_of_parse (hdesugar.symm ▸ htable), hok]
    rfl
  have htaken : Table.Acyclic { Table.nested with forced := [] } := Table.acyclic_nested
  have hmiddle : (Table.nested.unfoldAll 1).2.Acyclic := htaken.of_steps (Table.steps_unfoldEach ..)
  have hhalfway : halfway =
      (Table.unfoldPasses (.ofIdentifier ['c']) 6 6 (Table.nested.unfoldAll 1).2).2 :=
    congrArg Prod.snd (Table.unfold_eq_unfoldPasses hmiddle.not_reachesCycle 6)
  have hpicks : ((Expander.new halfway 4).expand .start
      (Journal.start (Script.ofList [0, 2]))).2.2.picks = [⟨2, 0⟩, ⟨3, 2⟩] := by
    rw [hhalfway, Table.acyclic_nested.unfoldAll_eq]
    decide +kernel
  have hreachable : halfwayIndexed.Reachable := ((Reachable.read hread).run (.all 1)).run (.one _ 6)
  obtain ⟨hdistinct, hkeys, hentries, -, hstart, hproductions, -, -, hrange⟩ :=
    hinvariant _ hreachable
  obtain ⟨hsublist, -, hfinished⟩ := hresolve _ _ hread
  obtain ⟨-, last, -, -, hlast, -, hdone⟩ := hcompile _ _ _ hgrammar
  exact ⟨⟨hread, hall.result_eq.trans hfails, hreachable, hdistinct, hkeys, hentries, hstart,
      hproductions, hone.represents, hpicks,
      (hrange Script (Expander.new halfway 4) .start (Script.ofList [0, 2]) hone.represents).1⟩,
    ⟨hsublist, hresolved, hfinished 6 _ (Prod.ext hresolved rfl)⟩, hgrammar, last, hlast, hdone⟩

end IndexedTable

end TextGrammar
