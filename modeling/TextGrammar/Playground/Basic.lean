import TextGrammar.Engine.Basic
import TextGrammar.Playground.Json

/-!
# The playground

An engine for a page on which a grammar is tried out. It keeps the source of its grammar so that it
can begin anew, and gives its lists as JSON texts.
-/

namespace TextGrammar

/-- An engine with the source of its grammar. -/
structure Playground (σ : Type) where
  engine : Engine σ
  source : Text
deriving DecidableEq

namespace Playground

variable {σ : Type}

/-- The playground of a source and a seed. -/
def new [SeededSource σ] (source : Text) (seed : UInt64) : Except EngineError (Playground σ) :=
  match Grammar.compile source with
  | .ok grammar => .ok ⟨Engine.start grammar (some seed) (SeededSource.ofSeed seed), source⟩
  | .error error => .error (.grammar error)

/-- Begins anew with a seed and the same source. -/
def reset [SeededSource σ] (playground : Playground σ) (seed : UInt64) :
    Except EngineError Unit × Playground σ :=
  match new playground.source seed with
  | .ok fresh => (.ok (), { playground with engine := fresh.engine })
  | .error error => (.error error, playground)

/-- A result with the playground behind it. -/
def keep {α : Type} (playground : Playground σ) (run : Except EngineError α × Engine σ) :
    Except EngineError α × Playground σ :=
  (run.1, { playground with engine := run.2 })

/-- The written form of a row of the table. -/
def rowJson (row : Symbol × Production) : Text :=
  Json.object [
    ("name".toList, Json.string row.1.name),
    ("alternatives".toList, Json.number row.2.size),
    ("synthetic".toList, Json.bool row.1.isSynthetic)]

/-- Writes what is known of every symbol. -/
def symbols (playground : Playground σ) : Text :=
  Json.array (playground.engine.grammar.table.rows.map rowJson)

variable [RandomSource σ]

/-- Generates a text. -/
def generate (playground : Playground σ) : Except EngineError Text × Playground σ :=
  playground.keep playground.engine.generate

/-- Generates a number of texts and writes them as an array of strings. -/
def generateVariants (playground : Playground σ) (count : Nat) :
    Except EngineError Text × Playground σ :=
  let (result, playground) := playground.keep (playground.engine.generateVariants count)
  (result.map fun texts => Json.array (texts.map Json.string), playground)

/-- The written form of a choice. -/
def stepJson (step : TraceStep) : Text :=
  Json.object [
    ("depth".toList, Json.number step.depth),
    ("symbol".toList, Json.string step.symbol.name),
    ("choice".toList, Json.number step.choice),
    ("alternatives".toList, Json.number step.alternatives)]

/-- Generates a text and writes it with the choices that led to it. -/
def trace (playground : Playground σ) : Except EngineError Text × Playground σ :=
  let (result, playground) := playground.keep playground.engine.generateTraced
  let write (run : Text × List TraceStep) : Text :=
    Json.object [
      ("text".toList, Json.string run.1),
      ("steps".toList, Json.array (run.2.map stepJson))]
  (result.map write, playground)

end Playground

end TextGrammar
