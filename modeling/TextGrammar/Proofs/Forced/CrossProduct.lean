import Mathlib.Algebra.GroupWithZero.Nat
import TextGrammar.Proofs.Forced.Cycles
import TextGrammar.Proofs.Forced.Fillings

/-!
# The cross product of forced references

In a table whose forced references do not lead back to where they began, every symbol stands for a
list of alternatives without forced references: all the ways to fill them in, with what their
targets stand for in turn. Resolving ends at exactly these lists, whatever order it goes in.

* `Table.fillings` is what a symbol stands for, and `Table.fillings_eq` its recursive equation.
* `Table.FilledBy` is the invariant: every row of the table stands for the right list.
  `Table.FilledBy.pass` shows that a pass keeps it.
* `Table.unfoldAll_cross_product` is the result.
-/

namespace TextGrammar

namespace Table

/-! ## What a symbol stands for -/

/-- What a symbol stands for as far as it takes no more than `depth` symbols that force one
another. -/
def fillingsWithin (table : Table) : Nat → Symbol → List Alternative
  | 0, _ => []
  | depth + 1, symbol =>
    (table.alternatives symbol).flatMap (Alternative.fillings (table.fillingsWithin depth))

/-- What a symbol stands for once every forced reference is filled in. No chain of forced
references is longer than the table. -/
def fillings (table : Table) : Symbol → List Alternative :=
  table.fillingsWithin table.rows.length

variable {table table' : Table} {choices : Symbol → List Alternative}

theorem fillingsWithin_of_not_mem {symbol : Symbol} (h : symbol ∉ table.symbols) (depth : Nat) :
    table.fillingsWithin depth symbol = [] := by
  cases depth with
  | zero => rfl
  | succ depth => rw [fillingsWithin, alternatives_of_not_mem h, List.flatMap_nil]

theorem fillingsWithin_congr {symbol : Symbol} {depth depth' : Nat}
    (h : ∀ target, table.Forces symbol target →
      table.fillingsWithin depth target = table.fillingsWithin depth' target) :
    table.fillingsWithin (depth + 1) symbol = table.fillingsWithin (depth' + 1) symbol := by
  rw [fillingsWithin, fillingsWithin]
  apply List.flatMap_congr
  intro a ha
  apply Alternative.fillings_congr
  intro target htarget
  exact h target (forces_iff.2 ⟨a, ha, htarget⟩)

/-- A symbol stands for what its alternatives do, one after the other. -/
theorem fillings_eq (h : table.Acyclic) (symbol : Symbol) :
    table.fillings symbol =
      (table.alternatives symbol).flatMap (Alternative.fillings table.fillings) := by
  by_contra hne
  have hne' : table.fillingsWithin (table.rows.length + 1) symbol ≠
      table.fillingsWithin table.rows.length symbol := Ne.symm hne
  obtain ⟨rest, hlength, hchain, hsymbols⟩ := exists_chain_of_ne table.fillingsWithin
    (fun _ hnot _ _ => by rw [fillingsWithin_of_not_mem hnot, fillingsWithin_of_not_mem hnot])
    (fun _ _ _ => fillingsWithin_congr) hne'
  have hle := length_le_of_not_reachesCycle h.not_reachesCycle hchain hsymbols
  rw [List.length_cons] at hle
  omega

/-! ## The invariant -/

/-- Every symbol of the table stands for given alternatives, if every forced reference does. -/
def FilledBy (table : Table) (choices : Symbol → List Alternative) : Prop :=
  ∀ symbol, choices symbol = (table.alternatives symbol).flatMap (Alternative.fillings choices)

/-- What a pass puts in place of an alternative stands for the same as the alternative. The choice
for the leftmost reference changes last, so resolving it first keeps the order. -/
theorem FilledBy.flatMap_resolved (h : table.FilledBy choices) (a : Alternative) :
    (table.resolved a).flatMap (Alternative.fillings choices) = a.fillings choices := by
  cases hfirst : a.firstForced? with
  | none =>
    rw [resolved_of_firstForced?_eq_none hfirst, List.flatMap_singleton]
  | some found =>
    obtain ⟨index, reference⟩ := found
    rw [resolved_of_firstForced? hfirst, List.flatMap_map]
    obtain ⟨before, after, rfl, rfl, hfree⟩ := Alternative.exists_of_firstForced? hfirst
    -- Both sides run through the alternatives of the target, then through what is behind.
    have hright : Alternative.fillings choices ⟨before ++ .forced reference :: after⟩ =
        (choices reference).flatMap fun choice => (TextGrammar.fillings choices after).map
          fun back => Alternative.ofSegments (before ++ choice.segments ++ back) := by
      rw [Alternative.fillings, fillings_append, fillings_of_free hfree, List.flatMap_singleton,
        TextGrammar.fillings, Segment.fillings, List.flatMap_map, List.map_flatMap,
        List.map_flatMap]
      simp only [List.map_map, Function.comp_def, List.append_assoc]
    have hleft : ∀ choice : Alternative,
        (Alternative.splice ⟨before ++ .forced reference :: after⟩ before.length choice).fillings
            choices =
          (choice.fillings choices).flatMap fun filled => (TextGrammar.fillings choices after).map
            fun back => Alternative.ofSegments (before ++ filled.segments ++ back) := by
      intro choice
      rw [Alternative.splice_append, Alternative.fillings_ofSegments, fillings_append,
        fillings_append, fillings_of_free hfree, List.flatMap_singleton, List.flatMap_map,
        List.map_flatMap, Alternative.fillings, List.flatMap_map]
      simp only [List.map_map, Function.comp_def, Alternative.ofSegments_append_ofSegments]
    rw [hright, h reference, List.flatMap_assoc]
    simp only [hleft]

theorem FilledBy.pass {symbol : Symbol} (h : table.FilledBy choices)
    (hpass : Pass symbol table table') : table'.FilledBy choices := by
  intro symbol'
  rw [hpass.alternatives_eq]
  by_cases hsymbol : symbol' = symbol
  · subst hsymbol
    rw [if_pos rfl, List.flatMap_assoc, h symbol']
    apply List.flatMap_congr
    intro a _
    exact (h.flatMap_resolved a).symm
  · rw [if_neg hsymbol]
    exact h symbol'

theorem FilledBy.of_steps (h : table.FilledBy choices)
    (hsteps : Relation.ReflTransGen Step table table') : table'.FilledBy choices :=
  keeps_of_steps FilledBy.pass h hsteps

/-- Every alternative of the table is in the canonical form. -/
def Canonical (table : Table) : Prop :=
  ∀ symbol, ∀ a ∈ table.alternatives symbol, a.Canonical

theorem Canonical.resolved (h : table.Canonical) {symbol : Symbol} {a b : Alternative}
    (ha : a ∈ table.alternatives symbol) (hb : b ∈ table.resolved a) : b.Canonical := by
  cases hfirst : a.firstForced? with
  | none =>
    rw [resolved_of_firstForced?_eq_none hfirst, List.mem_singleton] at hb
    rw [hb]
    exact h symbol a ha
  | some found =>
    rw [resolved_of_firstForced? hfirst] at hb
    obtain ⟨choice, -, rfl⟩ := List.mem_map.1 hb
    exact Alternative.canonical_ofSegments _

theorem Canonical.pass {symbol : Symbol} (h : table.Canonical)
    (hpass : Pass symbol table table') : table'.Canonical := by
  intro symbol' b hb
  rw [hpass.alternatives_eq] at hb
  by_cases hsymbol : symbol' = symbol
  · rw [if_pos hsymbol] at hb
    obtain ⟨a, ha, hba⟩ := List.mem_flatMap.1 hb
    exact h.resolved ha hba
  · rw [if_neg hsymbol] at hb
    exact h symbol' b hb

theorem Canonical.of_steps (h : table.Canonical)
    (hsteps : Relation.ReflTransGen Step table table') : table'.Canonical :=
  keeps_of_steps Canonical.pass h hsteps

theorem AsRead.canonical_alternatives (h : table.AsRead) : table.Canonical := by
  intro symbol a ha
  obtain ⟨production, hrow, hmem⟩ := exists_mem_rows_of_mem_alternatives ha
  exact (h.productions _ hrow).canonical a hmem

/-- A table without forced references holds what its symbols stand for. -/
theorem FilledBy.alternatives_eq (h : table.FilledBy choices) (hcanonical : table.Canonical)
    (hresolved : ∀ symbol, table.Resolved symbol) (symbol : Symbol) :
    table.alternatives symbol = choices symbol := by
  rw [h symbol, List.flatMap_congr fun a ha => Alternative.fillings_of_firstForced?_eq_none
    (hcanonical symbol a ha) ((hresolved symbol).firstForced?_eq_none ha)]
  exact (List.flatMap_singleton' _).symm

/-! ## The result -/

variable {order : List Symbol} {limit : Nat}

/-- Resolving ends at what the symbols stand for, whatever order it goes in. -/
theorem AsRead.alternatives_of_unfoldEach (h : table.AsRead) (hacyclic : table.Acyclic)
    (horder : order.Perm table.forced)
    (hunfold : unfoldEach limit order { table with forced := [] } = (.ok (), table'))
    (symbol : Symbol) : table'.alternatives symbol = table.fillings symbol := by
  have hsteps := steps_unfoldEach limit order { table with forced := [] }
  rw [hunfold] at hsteps
  have hfilled : Table.FilledBy { table with forced := [] } table.fillings := fillings_eq hacyclic
  have hcanonical : Table.Canonical { table with forced := [] } := h.canonical_alternatives
  exact (hfilled.of_steps hsteps).alternatives_eq (hcanonical.of_steps hsteps)
    (h.resolved_of_unfoldEach (fun _ hmem => horder.mem_iff.2 hmem) hunfold) symbol

theorem AsRead.eq_of_unfoldEach (h : table.AsRead) (hacyclic : table.Acyclic)
    (horder : order.Perm table.forced)
    (hunfold : unfoldEach limit order { table with forced := [] } = (.ok (), table')) :
    table' = ⟨table.rows.map fun row => (row.1, ⟨table.fillings row.1⟩), []⟩ := by
  have hsteps := steps_unfoldEach limit order { table with forced := [] }
  rw [hunfold] at hsteps
  have hsymbols : table'.symbols = table.symbols := (symbols_eq_of_steps hsteps).trans rfl
  have hforced : table'.forced = [] := forced_eq_of_steps hsteps
  have hdistinct : table'.symbols.Nodup := by
    rw [hsymbols]
    exact h.distinct
  show Table.mk table'.rows table'.forced = _
  rw [rows_eq_map_symbols hdistinct, hsymbols, hforced, symbols, List.map_map]
  simp only [Function.comp_def, h.alternatives_of_unfoldEach hacyclic horder hunfold]

/-- Where forced references do not lead back to where they began, resolving all of them gives every
symbol what it stands for: for each of its alternatives in order, every way to fill in the forced
references, in lexicographic order. So the alternatives multiply, and nothing depends on the order
in which the symbols are resolved. -/
theorem unfoldAll_cross_product {source : Text} (hparse : Table.parse source = .ok table)
    (hacyclic : table.Acyclic) (hunfold : table.unfoldAll limit = (.ok (), table')) :
    (table'.rows = table.rows.map fun row => (row.1, ⟨table.fillings row.1⟩)) ∧
      (∀ symbol, table.fillings symbol =
        (table.alternatives symbol).flatMap (Alternative.fillings table.fillings)) ∧
      (∀ symbol, (table'.alternatives symbol).length =
        ((table.alternatives symbol).map fun a =>
          (a.forcedReferences.map fun target => (table'.alternatives target).length).prod).sum) ∧
      ∀ order, order.Perm table.forced → ∀ limit' table'',
        unfoldEach limit' order { table with forced := [] } = (.ok (), table'') →
          table'' = table' := by
  have hread := asRead_of_parse hparse
  have heq := hread.eq_of_unfoldEach hacyclic (.refl _) hunfold
  refine ⟨congrArg rows heq, fillings_eq hacyclic, ?_, ?_⟩
  · intro symbol
    simp only [hread.alternatives_of_unfoldEach hacyclic (.refl _) hunfold]
    rw [fillings_eq hacyclic symbol, List.length_flatMap]
    simp only [Alternative.length_fillings]
  · intro order horder limit' table'' hunfold'
    rw [heq]
    exact hread.eq_of_unfoldEach hacyclic horder hunfold'

/-- A source where every symbol is resolved before the targets of its forced references. -/
def nestedSource : Text :=
  "$s=a>$c>$c;$c=r|>$d;$d=|x>$e;$e=1".toList

def nested : Table :=
  let c := Symbol.ofIdentifier ['c']
  let d := Symbol.ofIdentifier ['d']
  let e := Symbol.ofIdentifier ['e']
  { rows := [(.start, ⟨[⟨[.literal ['a'], .forced c, .forced c]⟩]⟩),
      (c, ⟨[⟨[.literal ['r']]⟩, ⟨[.forced d]⟩]⟩),
      (d, ⟨[⟨[]⟩, ⟨[.literal ['x'], .forced e]⟩]⟩),
      (e, ⟨[⟨[.literal ['1']]⟩]⟩)]
    forced := [.start, c, d] }

theorem acyclic_nested : nested.Acyclic := by
  apply acyclic_of_rank fun symbol => nested.rows.length - nested.symbols.idxOf symbol
  decide

theorem nested_cross_product :
    Table.parse nestedSource = .ok nested ∧ nested.Acyclic ∧
      ∃ table', nested.unfoldAll 6 = (.ok (), table') ∧
        (table'.alternatives .start).length = 9 ∧
        (table'.rows = nested.rows.map fun row => (row.1, ⟨nested.fillings row.1⟩)) ∧
        (∀ symbol, nested.fillings symbol =
          (nested.alternatives symbol).flatMap (Alternative.fillings nested.fillings)) ∧
        (∀ symbol, (table'.alternatives symbol).length =
          ((nested.alternatives symbol).map fun a =>
            (a.forcedReferences.map fun target => (table'.alternatives target).length).prod).sum) ∧
        ∀ order, order.Perm nested.forced → ∀ limit' table'',
          unfoldEach limit' order { nested with forced := [] } = (.ok (), table'') →
            table'' = table' := by
  have hparse : Table.parse nestedSource = .ok nested := by decide +kernel
  have hpasses := acyclic_nested.unfoldAll_eq 6
  have hok : (nested.unfoldAll 6).1 = .ok () := by
    rw [hpasses]
    decide +kernel
  have hlength : ((nested.unfoldAll 6).2.alternatives .start).length = 9 := by
    rw [hpasses]
    decide +kernel
  exact ⟨hparse, acyclic_nested, _, Prod.ext hok rfl, hlength,
    unfoldAll_cross_product hparse acyclic_nested (Prod.ext hok rfl)⟩

end Table

end TextGrammar
