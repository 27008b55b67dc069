import TextGrammar.Engine.Builder

/-!
# A night at the tavern

A report that shows an engine at work: some sentences, some names, and one sentence with the choices
that led to it.
-/

namespace TextGrammar.Tavern

/-- Where the grammar lies. -/
def grammarPath : Text :=
  "grammar_data/tavern.pg".toList

/-- The seed of the report. -/
def seed : UInt64 :=
  1887

variable {σ : Type}

/-- Builds the engine of the report. -/
def engine [SeededSource σ] {m : Type → Type} [Monad m] (read : Builder.FileReader m) :
    m (Except EngineError (Engine σ)) :=
  Builder.build read (SeededSource.ofSeed seed)
    { Builder.new with grammarFile := some grammarPath, seed := some seed }

/-- A ruled heading. -/
def banner (lines : List String) : List String :=
  let rule := "========================================"
  [rule] ++ lines.map ("   " ++ ·) ++ [rule]

/-- A text, or the failure in its place. -/
def lineOf : Except EngineError Text → String
  | .ok text => String.ofList text
  | .error error => s!"[Generation error: {error}]"

variable [RandomSource σ]

/-- The given number of sentences, each under a heading, numbered from `first`. -/
def rounds (engine : Engine σ) (first : Nat) : Nat → List String × Engine σ
  | 0 => ([], engine)
  | count + 1 =>
    let (result, engine) := engine.generate
    let (rest, engine) := rounds engine (first + 1) count
    ([s!"--- Round {first} ---", lineOf result, ""] ++ rest, engine)

/-- The given number of regular guests. -/
def regulars (engine : Engine σ) : Nat → List String × Engine σ
  | 0 => ([], engine)
  | count + 1 =>
    let (result, engine) := engine.generateFrom "$regular".toList
    let (rest, engine) := regulars engine count
    (("  " ++ lineOf result) :: rest, engine)

/-- Two spaces for each symbol around a choice. -/
def indent (step : TraceStep) : String :=
  String.ofList (List.replicate (2 * step.depth) ' ')

/-- A choice, with the number of the alternative from one on. -/
def stepLine (step : TraceStep) : String :=
  let place := indent step
  let chosen := step.choice + 1
  let total := step.alternatives
  s!"  {place}{step.symbol} [{chosen}/{total}]"

/-- One sentence with the choices that led to it. -/
def anatomy (engine : Engine σ) : List String :=
  match engine.generateTraced.1 with
  | .ok (text, steps) => String.ofList text :: steps.map stepLine
  | .error error => [s!"[Generation error: {error}]"]

/-- The lines of the report of an engine. -/
def report (engine : Engine σ) : List String :=
  let (sentences, engine) := rounds engine 1 6
  let (names, engine) := regulars engine 3
  banner ["THE DROWNED LANTERN", "[overheard at the bar]"] ++ [""] ++ sentences ++
    ["--- Regulars tonight ---"] ++ names ++ [""] ++
    ["--- How a line is built ---"] ++ anatomy engine ++ [""] ++
    banner ["[LAST CALL]"]

end TextGrammar.Tavern
