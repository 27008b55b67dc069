import TextGrammar.Table.Basic
import TextGrammar.Random.Source

/-!
# Expansion

Expanding a symbol chooses one alternative of its production and expands the references in it,
from left to right, each with choices of its own. The symbols around the one being expanded form a
stack, and a limit on its length keeps the expansion of recursive grammars finite.

A run gives its result, the choices it made, and the source behind them; all three are there also
when it fails.
-/

namespace TextGrammar

/-- Why a symbol cannot be expanded. A stack holds the symbols around the failing one, outermost
first. -/
inductive ExpansionError where
  /-- The symbol is not defined. -/
  | undefinedSymbol (symbol : Symbol) (stack : List Symbol)
  /-- The stack is as long as the limit allows. -/
  | cyclicGrammar (symbol : Symbol) (depth : Nat) (stack : List Symbol)
  /-- The source chose an alternative that the symbol does not have. -/
  | choiceOutOfRange (symbol : Symbol) (choice alternatives : Nat)
deriving DecidableEq, Repr, Inhabited

namespace ExpansionError

/-- The description of a stack. -/
def describeStack (stack : List Symbol) : String :=
  if stack.isEmpty then "empty" else Symbol.chain stack

/-- The description of an expansion error. -/
def message : ExpansionError → String
  | undefinedSymbol symbol stack =>
    let around := describeStack stack
    s!"cannot visit undefined symbol {symbol} (stack: {around})"
  | cyclicGrammar symbol depth stack =>
    let around := describeStack stack
    s!"expanding {symbol} exceeded the maximum depth of {depth} (stack: {around})"
  | choiceOutOfRange symbol choice alternatives =>
    s!"choice {choice} for {symbol} is not below {alternatives}"

instance : ToString ExpansionError := ⟨message⟩

end ExpansionError

/-- One choice of an expansion. -/
structure TraceStep where
  /-- The number of symbols around the expanded one. -/
  depth : Nat
  symbol : Symbol
  /-- The number of the chosen alternative. -/
  choice : Nat
  /-- The number of alternatives there were to choose from. -/
  alternatives : Nat
deriving DecidableEq, Repr

/-- What a run of an expansion leaves behind. -/
structure Outcome (σ : Type) where
  /-- The text, or why there is none. -/
  result : Except ExpansionError Text
  /-- The choices that were made, in order. -/
  steps : List TraceStep
  /-- The source after them. -/
  source : σ

namespace Outcome

variable {σ : Type}

/-- A run that makes no choice. -/
def done (result : Except ExpansionError Text) (source : σ) : Outcome σ :=
  ⟨result, [], source⟩

/-- A run with a step in front of it. -/
def after (step : TraceStep) (run : Outcome σ) : Outcome σ :=
  { run with steps := step :: run.steps }

/-- A run and, if it succeeds, a second one; the texts are joined. -/
def andThen (first : Outcome σ) (second : σ → Outcome σ) : Outcome σ :=
  match first.result with
  | .error _ => first
  | .ok text =>
    let next := second first.source
    { result := next.result.map (text ++ ·)
      steps := first.steps ++ next.steps
      source := next.source }

end Outcome

variable {σ : Type} [RandomSource σ]

/-- Expands segments from left to right, with `visit` for the references, forced or not. -/
def expandSegments (visit : Symbol → σ → Outcome σ) : List Segment → σ → Outcome σ
  | [], source => Outcome.done (.ok []) source
  | .literal text :: rest, source =>
    (Outcome.done (.ok text) source).andThen (expandSegments visit rest)
  | .ref symbol :: rest, source => (visit symbol source).andThen (expandSegments visit rest)
  | .forced symbol :: rest, source => (visit symbol source).andThen (expandSegments visit rest)

namespace Table

/-- Expands a symbol inside of a stack. The stack may grow by `left` symbols, up to `limit`. -/
def visit (table : Table) (limit left : Nat) (stack : List Symbol) (symbol : Symbol)
    (source : σ) : Outcome σ :=
  match table.get? symbol with
  | none => Outcome.done (.error (.undefinedSymbol symbol stack)) source
  | some production =>
    match left with
    | 0 => Outcome.done (.error (.cyclicGrammar symbol limit stack)) source
    | left + 1 =>
      let (choice, source) := RandomSource.pick source production.size
      Outcome.after ⟨stack.length, symbol, choice, production.size⟩ <|
        match production.alternatives[choice]? with
        | none => Outcome.done (.error (.choiceOutOfRange symbol choice production.size)) source
        | some a => expandSegments (visit table limit left (stack ++ [symbol])) a.segments source

/-- Expands a symbol with a stack of at most `limit` symbols. -/
def expand (table : Table) (limit : Nat) (symbol : Symbol) (source : σ) : Outcome σ :=
  table.visit limit limit [] symbol source

end Table

end TextGrammar
