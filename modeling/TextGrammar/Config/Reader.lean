import TextGrammar.Config.Basic
import TextGrammar.Ron.Value

/-!
# Reading configurations

A configuration is a RON structure such as

```text
(
    seed: Some(42),
    grammar: Some("tavern.pg"),
    max_expansion_depth: 256,
    max_unfold_passes: 64,
)
```

that may be named `EngineConfig`. A field may be given once; fields with other names are ignored.
-/

namespace TextGrammar.EngineConfig

open Ron

/-- The fields read so far. -/
structure Fields where
  seed : Option (Option UInt64)
  grammar : Option (Option Text)
  maxExpansionDepth : Option Nat
  maxUnfoldPasses : Option Nat

/-- The beginning, without fields. -/
def Fields.none : Fields :=
  ⟨.none, .none, .none, .none⟩

/-- The configuration that some fields describe. -/
def Fields.config (fields : Fields) : EngineConfig where
  seed := fields.seed.getD standard.seed
  grammar := fields.grammar.getD standard.grammar
  maxExpansionDepth := fields.maxExpansionDepth.getD standard.maxExpansionDepth
  maxUnfoldPasses := fields.maxUnfoldPasses.getD standard.maxUnfoldPasses

/-- Refuses a field that is there already. -/
def once {α : Type} (field : Option α) : Reader Unit := do
  if field.isSome then failure

/-- How many levels may lie below the value of a field: the structure and its fields take up two. -/
def fieldLevels : Nat :=
  maxLevels - 2

/-- Reads a field. -/
def readField (implicit : Bool) (fields : Fields) : Reader Fields := do
  let name ← identifier
  gap
  take [':']
  gap
  if name = "seed".toList then
    once fields.seed
    let seed ← option implicit unsigned
    return { fields with seed := some (seed.map UInt64.ofNat) }
  else if name = "grammar".toList then
    once fields.grammar
    return { fields with grammar := some (← option implicit text) }
  else if name = "max_expansion_depth".toList then
    once fields.maxExpansionDepth
    return { fields with maxExpansionDepth := some (← unsigned) }
  else if name = "max_unfold_passes".toList then
    once fields.maxUnfoldPasses
    return { fields with maxUnfoldPasses := some (← unsigned) }
  else
    skipValue implicit fieldLevels
    return fields

/-- Reads the name of the structure, if there is one. -/
def readName : Reader Unit := do
  if (← get).head?.any isNameChar then
    unless (← identifier) = "EngineConfig".toList do failure

/-- Reads a document. -/
def readDocument : Reader EngineConfig := do
  gap
  let implicit := (← attributes (← get).length).contains implicitSome
  readName
  gap
  take ['(']
  let fields ← itemsUpTo ')' (readField implicit) Fields.none
  gap
  return fields.config

/-- The configuration that a document describes. -/
def parse? (document : Text) : Option EngineConfig :=
  match readDocument document with
  | some (config, []) => some config
  | _ => none

end TextGrammar.EngineConfig
