import TextGrammar.Grammar.Basic

/-!
# Engine configurations

What an engine can be told in a file. Everything in it is optional.
-/

namespace TextGrammar

/-- The settings of an engine. -/
structure EngineConfig where
  /-- The seed of the generator. -/
  seed : Option UInt64
  /-- The path of the grammar, from the working directory. -/
  grammar : Option Text
  maxExpansionDepth : Nat
  maxUnfoldPasses : Nat
deriving DecidableEq, Repr

namespace EngineConfig

/-- The settings that hold where no others are given. -/
def standard : EngineConfig where
  seed := none
  grammar := none
  maxExpansionDepth := Limits.standard.maxExpansionDepth
  maxUnfoldPasses := Limits.standard.maxUnfoldPasses

/-- The limits for grammars. -/
def limits (config : EngineConfig) : Limits :=
  ⟨config.maxExpansionDepth, config.maxUnfoldPasses⟩

end EngineConfig

end TextGrammar
