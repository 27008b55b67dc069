import TextGrammar.Grammar.Basic

/-!
# Engines

An engine is a grammar with a generator of its own, which may be any source that a seed determines.
It counts the texts it has generated since it was built or last reseeded. Every operation gives the
engine behind it, also when it fails.
-/

namespace TextGrammar

/-- Why a program ends without an answer. -/
inductive Crash where
  /-- There is no room for as many texts as were asked for. -/
  | capacityOverflow
  /-- A counter would have passed the greatest number it can hold. -/
  | counterOverflow
deriving DecidableEq, Repr, Inhabited

/-- What is said of a crash. -/
def Crash.message : Crash → String
  | capacityOverflow => "capacity overflow"
  | counterOverflow => "attempt to add with overflow"

/-- Why an engine cannot be built or does not answer. -/
inductive EngineError where
  | grammar (error : GrammarError)
  | expansion (error : ExpansionError)
  /-- The configuration could not be read from its file. -/
  | io (error : FileError)
  /-- The configuration is not well formed. -/
  | malformedConfig
  /-- There is nothing to take a grammar from. -/
  | noGrammar
  /-- There is no answer at all: the caller ends too, if it is not prepared for that. -/
  | crash (cause : Crash)
deriving DecidableEq, Repr, Inhabited

/-- The description of an engine error. -/
def EngineError.message : EngineError → String
  | grammar error => s!"grammar error: {error}"
  | expansion error => s!"expansion error: {error}"
  | io error => s!"IO error: {error}"
  | malformedConfig => "RON error: malformed configuration"
  | noGrammar => "no grammar source, file, or config grammar path given"
  | crash cause => cause.message

instance : ToString EngineError := ⟨EngineError.message⟩

/-- A grammar with a generator. -/
structure Engine (σ : Type) where
  grammar : Grammar
  generator : σ
  /-- The seed of the generator, if one was given. -/
  seed : Option UInt64
  /-- The number of texts generated since the engine was built or reseeded. No run is long enough to
  exceed it. -/
  generationCount : UInt64
deriving DecidableEq

namespace Engine

/-- The most texts that there can be room for: a list takes up at most `2 ^ 63 - 1` bytes, and each
of its texts 24 of them. -/
def maxTexts : Nat :=
  (UInt64.size / 2 - 1) / 24

variable {σ : Type}

/-- The engine of a grammar. Without a seed its generator is `entropy`. -/
def start [SeededSource σ] (grammar : Grammar) (seed : Option UInt64) (entropy : σ) : Engine σ :=
  ⟨grammar, (seed.map SeededSource.ofSeed).getD entropy, seed, 0⟩

/-- Begins anew with a seed. -/
def reseed [SeededSource σ] (engine : Engine σ) (seed : UInt64) : Engine σ :=
  { engine with generator := SeededSource.ofSeed seed, seed := some seed, generationCount := 0 }

/-- Takes over the run of a generation, and counts it if it succeeded. -/
def finishRun {α : Type} (engine : Engine σ) (run : Generated σ α) :
    Except EngineError α × Engine σ :=
  match run with
  | (.ok a, generator) =>
    (.ok a, { engine with
      generator := generator
      generationCount := engine.generationCount + 1 })
  | (.error error, generator) => (.error (.expansion error), { engine with generator := generator })

variable [RandomSource σ]

/-- Generates a text from the start symbol. -/
def generate (engine : Engine σ) : Except EngineError Text × Engine σ :=
  engine.finishRun (engine.grammar.generate engine.generator)

/-- Generates a text from the symbol with a given name. -/
def generateFrom (engine : Engine σ) (name : Text) : Except EngineError Text × Engine σ :=
  match Symbol.parse? name with
  | some symbol => engine.finishRun (engine.grammar.generateFrom symbol engine.generator)
  | none => (.error (.grammar (.invalidSymbolName name)), engine)

/-- Generates a number of texts, up to the first that fails. -/
def generateEach (engine : Engine σ) : Nat → Except EngineError (List Text) × Engine σ
  | 0 => (.ok [], engine)
  | count + 1 =>
    match engine.generate with
    | (.error error, engine) => (.error error, engine)
    | (.ok text, engine) =>
      let (rest, engine) := engine.generateEach count
      (rest.map (text :: ·), engine)

/-- Generates a number of texts, up to the first that fails. Room for all of them is made before the
first is generated. -/
def generateVariants (engine : Engine σ) (count : Nat) :
    Except EngineError (List Text) × Engine σ :=
  if count ≤ maxTexts then engine.generateEach count
  else (.error (.crash .capacityOverflow), engine)

/-- Generates a text with the choices that led to it. -/
def generateTraced (engine : Engine σ) : Except EngineError (Text × List TraceStep) × Engine σ :=
  engine.finishRun (engine.grammar.generateTraced engine.generator)

end Engine

end TextGrammar
