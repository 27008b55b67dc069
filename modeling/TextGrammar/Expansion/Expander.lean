import TextGrammar.Expansion.Basic

/-!
# Expanders

An expander expands symbols of one table, any number of times. It may record the choices of all its
runs, failing ones included, until they are taken from it.
-/

namespace TextGrammar

/-- A table to expand symbols of. -/
structure Expander where
  table : Table
  /-- The greatest length of the stack. -/
  maxDepth : Nat
  /-- The steps recorded since they were last taken, if steps are recorded at all. -/
  trace : Option (List TraceStep)
deriving DecidableEq, Repr

namespace Expander

/-- An expander that records nothing. -/
def new (table : Table) (maxDepth : Nat) : Expander :=
  ⟨table, maxDepth, none⟩

/-- The expander with an empty record. -/
def traced (expander : Expander) : Expander :=
  { expander with trace := some [] }

/-- Expands a symbol. -/
def expand {σ : Type} [RandomSource σ] (expander : Expander) (symbol : Symbol) (source : σ) :
    Except ExpansionError Text × Expander × σ :=
  let run := expander.table.expand expander.maxDepth symbol source
  (run.result, { expander with trace := expander.trace.map (· ++ run.steps) }, run.source)

/-- Takes what was recorded. -/
def takeTrace (expander : Expander) : List TraceStep × Expander :=
  (expander.trace.getD [], { expander with trace := expander.trace.map fun _ => [] })

end Expander

end TextGrammar
