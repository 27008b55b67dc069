import TextGrammar.Production
import TextGrammar.Grammar.Error

/-!
# Tables

A table holds the productions of a grammar in the order of their definitions, and the symbols
whose forced references are still to be resolved.
-/

namespace TextGrammar

/-- The productions of a grammar. -/
structure Table where
  /-- The symbols with their productions, in the order of their definitions. -/
  rows : List (Symbol × Production)
  /-- The symbols that were defined with forced references and are not resolved yet. -/
  forced : List Symbol
deriving DecidableEq, Repr, Inhabited

namespace Table

/-- The table without definitions. -/
def empty : Table :=
  ⟨[], []⟩

/-- The symbols in the order of their definitions. -/
def symbols (table : Table) : List Symbol :=
  table.rows.map Prod.fst

/-- The production of a symbol. -/
def get? (table : Table) (symbol : Symbol) : Option Production :=
  table.rows.lookup symbol

/-- Whether a symbol is defined. -/
def contains (table : Table) (symbol : Symbol) : Bool :=
  (table.get? symbol).isSome

/-- Adds a definition at the end, unless the symbol has one already. -/
def insert (table : Table) (symbol : Symbol) (production : Production) :
    Except GrammarError Table :=
  if table.contains symbol then .error (.duplicateSymbol symbol)
  else .ok {
    rows := table.rows ++ [(symbol, production)]
    forced := if production.hasForced then table.forced ++ [symbol] else table.forced }

/-- Gives a symbol other alternatives, if it is defined. -/
def replace (table : Table) (symbol : Symbol) (alternatives : List Alternative) : Table :=
  { table with
    rows := table.rows.map fun row => if row.1 = symbol then (symbol, ⟨alternatives⟩) else row }

end Table

end TextGrammar
