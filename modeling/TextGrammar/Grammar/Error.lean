import TextGrammar.Symbol
import TextGrammar.Files.Error

/-!
# Grammar errors

The causes for which a source is not a grammar.
-/

namespace TextGrammar

instance : ToString Symbol where
  toString symbol := String.ofList symbol.name

/-- Names with `>` between them. -/
def Symbol.chain (symbols : List Symbol) : String :=
  String.intercalate " > " (symbols.map toString)

/-- Why a source is not a grammar. -/
inductive GrammarError where
  /-- The left side of a definition is not a symbol. -/
  | invalidSymbolName (name : Text)
  /-- A definition has no content. -/
  | emptyProduction (symbol : Symbol)
  /-- No definition is for `$s`. -/
  | missingStartSymbol
  /-- Two definitions are for one symbol. -/
  | duplicateSymbol (symbol : Symbol)
  /-- A forced reference of a symbol leads to a symbol that is not defined. -/
  | undefinedForcedReference (symbol reference : Symbol)
  /-- The forced references of a symbol were not resolved. The path leads from the symbol to the
  first reference that comes back to it; it is empty if the passes ran out. -/
  | unfoldCycle (symbol : Symbol) (passes : Nat) (path : List Symbol)
  /-- The source could not be read. -/
  | io (error : FileError)
deriving DecidableEq, Repr, Inhabited

/-- The description of a grammar error. -/
def GrammarError.message : GrammarError → String
  | invalidSymbolName name =>
    "invalid symbol name: " ++ String.ofList name ++
      ", must be $ followed by letters, digits or _"
  | emptyProduction symbol => s!"no content for symbol {symbol}"
  | missingStartSymbol => "missing starting symbol: $s"
  | duplicateSymbol symbol => s!"symbol {symbol} is defined more than once"
  | undefinedForcedReference symbol reference =>
    s!"symbol {symbol} forces undefined symbol {reference}"
  | unfoldCycle symbol passes [] =>
    s!"forced substitution in {symbol} never settles: gave up after {passes} passes"
  | unfoldCycle symbol _ path =>
    s!"forced substitution in {symbol} never settles: cycle " ++ Symbol.chain path
  | io error => s!"IO error: {error}"

instance : ToString GrammarError := ⟨GrammarError.message⟩

end TextGrammar
