import TextGrammar.Engine.Basic
import TextGrammar.Config.Reader

/-!
# Building engines

A builder collects where the parts of an engine come from. What it is told directly wins over the
configuration, and the configuration over the standard. A configuration wins over the path of one,
and among the origins of a grammar the first of these that is given is used: a compiled grammar, a
source, a path, the path in the configuration. A compiled grammar keeps its own limits.
-/

namespace TextGrammar

namespace EngineConfig

/-- The configuration in a file, given what reading the file gave. -/
def ofFile : Except FileError Text → Except EngineError EngineConfig
  | .error error => .error (.io error)
  | .ok document =>
    match parse? document with
    | some config => .ok config
    | none => .error .malformedConfig

end EngineConfig

/-- Where the parts of an engine come from. -/
structure Builder where
  source : Option Text
  grammarFile : Option Text
  configFile : Option Text
  seed : Option UInt64
  maxExpansionDepth : Option Nat
  maxUnfoldPasses : Option Nat
  config : Option EngineConfig
  grammar : Option Grammar

namespace Builder

/-- The builder that was told nothing. -/
def new : Builder :=
  ⟨none, none, none, none, none, none, none, none⟩

/-- A way to read the text of the file at a path. -/
abbrev FileReader (m : Type → Type) := Text → m (Except FileError Text)

variable {m : Type → Type} [Monad m]

/-- The configuration of the engine. -/
def settings (read : FileReader m) (builder : Builder) : ExceptT EngineError m EngineConfig :=
  match builder.config, builder.configFile with
  | some config, _ => return config
  | none, some path => do EngineConfig.ofFile (← read path)
  | none, none => return EngineConfig.standard

/-- The limits of the engine under a configuration. -/
def limits (builder : Builder) (config : EngineConfig) : Limits where
  maxExpansionDepth := builder.maxExpansionDepth.getD config.maxExpansionDepth
  maxUnfoldPasses := builder.maxUnfoldPasses.getD config.maxUnfoldPasses

/-- The result of a compilation, with its failure as one of the engine. -/
def compiled (result : Except GrammarError Grammar) : Except EngineError Grammar :=
  result.mapError .grammar

/-- The grammar of the engine under a configuration. -/
def chosenGrammar (read : FileReader m) (builder : Builder) (config : EngineConfig) :
    ExceptT EngineError m Grammar :=
  let limits := builder.limits config
  match builder.grammar, builder.source, builder.grammarFile.or config.grammar with
  | some grammar, _, _ => return grammar
  | none, some source, _ => compiled (Grammar.compileWith limits source)
  | none, none, some path => do compiled (Grammar.compileFile limits (← read path))
  | none, none, none => throw .noGrammar

/-- Builds the engine. Files are read with `read`, and the generator of an engine without seed is
`entropy`. -/
def build {σ : Type} [SeededSource σ] (read : FileReader m) (entropy : σ) (builder : Builder) :
    m (Except EngineError (Engine σ)) := ExceptT.run do
  let config ← builder.settings read
  let grammar ← builder.chosenGrammar read config
  return Engine.start grammar (builder.seed.or config.seed) entropy

end Builder

end TextGrammar
