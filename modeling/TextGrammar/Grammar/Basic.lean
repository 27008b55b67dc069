import TextGrammar.Forced.Unfold
import TextGrammar.Table.Reader
import TextGrammar.Expansion.Expander
import TextGrammar.Normal.Normalize

/-!
# Grammars

A grammar is a table with all groups and forced references resolved. It is compiled from a source
once and then generates any number of texts from its start symbol or from any other.
-/

namespace TextGrammar

/-- Bounds that keep compilation and expansion finite. -/
structure Limits where
  /-- The greatest number of symbols inside each other during an expansion. -/
  maxExpansionDepth : Nat
  /-- The number of passes for resolving the forced references of one symbol. -/
  maxUnfoldPasses : Nat
deriving DecidableEq, Repr

/-- The limits that hold where no others are given. -/
def Limits.standard : Limits :=
  ⟨256, 64⟩

/-- A compiled grammar. -/
structure Grammar where
  table : Table
  start : Symbol
  limits : Limits
deriving DecidableEq, Repr

/-- A run of a generation: its result and the source behind it. -/
abbrev Generated (σ α : Type) := Except ExpansionError α × σ

namespace Grammar

/-- Compiles a source under given limits. -/
def compileWith (limits : Limits) (source : Text) : Except GrammarError Grammar := do
  let table ← Table.parse (desugar source)
  match table.unfoldAll limits.maxUnfoldPasses with
  | (.ok (), table) => .ok ⟨table, Symbol.start, limits⟩
  | (.error error, _) => .error error

/-- Compiles a source under the standard limits. -/
def compile (source : Text) : Except GrammarError Grammar :=
  compileWith Limits.standard source

/-- Compiles what was read from a file. -/
def compileFile (limits : Limits) : Except FileError Text → Except GrammarError Grammar
  | .ok source => compileWith limits source
  | .error error => .error (.io error)

/-- The final form of an expanded text: normalized, and without whitespace at its ends. -/
def finish (raw : Text) : Text :=
  (normalize raw).trim

variable {σ : Type} [RandomSource σ]

/-- Expands a symbol. Runs of whitespace and marks stay in the text. -/
def expandRaw (grammar : Grammar) (symbol : Symbol) (source : σ) : Generated σ Text :=
  let expander := Expander.new grammar.table grammar.limits.maxExpansionDepth
  let (result, _, source) := expander.expand symbol source
  (result, source)

/-- Generates a text from any symbol. -/
def generateFrom (grammar : Grammar) (symbol : Symbol) (source : σ) : Generated σ Text :=
  let (result, source) := grammar.expandRaw symbol source
  (result.map finish, source)

/-- Generates a text from the start symbol. -/
def generate (grammar : Grammar) (source : σ) : Generated σ Text :=
  grammar.generateFrom grammar.start source

/-- Generates a text from the start symbol, with the choices that led to it. -/
def generateTraced (grammar : Grammar) (source : σ) : Generated σ (Text × List TraceStep) :=
  let expander := (Expander.new grammar.table grammar.limits.maxExpansionDepth).traced
  let (result, expander, source) := expander.expand grammar.start source
  (result.map fun raw => (finish raw, expander.takeTrace.1), source)

end Grammar

end TextGrammar
