import TextGrammar.Engine.Builder
import TextGrammar.Files.Directory
import TextGrammar.Shell.Arguments
import TextGrammar.Shell.Report

/-!
# Sessions of the shell

The shell keeps an engine and answers one line after the other. What it prints is a list of chunks
for the two output streams; files are read through a function that is handed in, so a session is a
function of what it reads. A crash ends it, and the program with it.
-/

namespace TextGrammar.Shell

/-! ## Output -/

/-- A piece of output, for the standard output or the error output. -/
inductive Chunk where
  | out (text : String)
  | err (text : String)
deriving DecidableEq, Repr

/-- A line on the standard output. -/
def say (line : String) : Chunk :=
  .out (line ++ "\n")

/-- A line on the error output. -/
def complain (line : String) : Chunk :=
  .err (line ++ "\n")

/-- What is printed before a line is read. -/
def prompt : Chunk :=
  .out "preview> "

/-- The usage of the program. -/
def usage : List Chunk :=
  [ "Preview — interactive generation shell for testing grammars.",
    "",
    "Usage: preview --grammar <file> [--config <file>] [--seed <n>]",
    "",
    "  --grammar <file>  Grammar source file (.pg)",
    "  --config <file>   RON engine config; may name the grammar itself",
    "  --seed <n>        Initial RNG seed (default: from config, else entropy)" ].map say

/-- The list of the commands. -/
def helpText : List Chunk :=
  [ "Commands:",
    "  gen [symbol]  Generate from $s, or from the given symbol",
    "  trace         Generate once and show every symbol visit",
    "  bulk <n>      Generate n sentences with variety statistics",
    "  seed <n>      Restart the RNG from a seed",
    "  symbols       List symbols and their alternative counts",
    "  reload        Recompile the grammar from disk",
    "  help          Show this help",
    "  quit          Exit",
    "",
    "Grammar syntax:",
    "  $sym = a | b;   alternatives      [x]   optional group",
    "  (x|y)           plain group       >$c   forced substitution",
    "  a ^ b           join              \\x    capitalize" ].map say

/-! ## Engines of a session -/

/-- A session: what the command line asked for, and the engine. -/
structure Session (σ : Type) where
  options : Options
  engine : Engine σ

/-- What a line leaves behind: a session, or the end of the program. -/
inductive Next (σ : Type) where
  | session (session : Session σ)
  | quit
  | crash (cause : Crash)

variable {σ : Type}

/-- What is printed last: a session prompts for a line that does not come, and a crash tells its
cause. -/
def Next.lastChunks : Next σ → List Chunk
  | session _ => [prompt]
  | quit => []
  | crash cause => [complain cause.message]

/-- The exit code of the program. -/
def Next.exitCode : Next σ → Nat
  | session _ => 0
  | quit => 0
  | crash _ => 101

/-- The line about the seed of an engine. -/
def seedLine (engine : Engine σ) : Chunk :=
  match engine.seed with
  | some seed => say s!"Seed: {seed}"
  | none => say "Seed: none (entropy)"

variable {m : Type → Type} [Monad m] [SeededSource σ]

/-- Builds an engine from the files of the options, and tells what was loaded or what went wrong. -/
def load (read : Builder.FileReader m) (entropy : σ) (options : Options)
    (seed : Option UInt64) : m (List Chunk × Option (Engine σ)) := do
  let builder : Builder :=
    { Builder.new with grammarFile := options.grammar, configFile := options.config, seed := seed }
  match ← builder.build read entropy with
  | .error error => return ([complain s!"ERROR: {error}"], none)
  | .ok engine =>
    let loaded (kind : String) (path : Text) : Chunk :=
      say (s!"Loaded {kind}: " ++ String.ofList path)
    return (options.config.toList.map (loaded "config") ++
      options.grammar.toList.map (loaded "grammar"), some engine)

/-! ## Commands -/

/-- The lines about a generated text. -/
def textLines : Except EngineError Text → List Chunk
  | .ok text => [say (String.ofList text)]
  | .error error => [complain s!"ERROR: {error}"]

/-- The line about a choice, indented by the symbols around it. -/
def stepLine (step : TraceStep) : Chunk :=
  let place := String.ofList (List.replicate (2 * step.depth) ' ')
  let chosen := step.choice + 1
  let total := step.alternatives
  say s!"[Trace] {place}{step.symbol} -> alternative {chosen} of {total}"

/-- The lines about a text and the choices that led to it. -/
def traceLines : Except EngineError (Text × List TraceStep) → List Chunk
  | .ok (text, steps) =>
    [say "", say "--- Generated Text ---", say (String.ofList text), say "--- End ---", say ""] ++
      steps.map stepLine ++ [say ""]
  | .error error => [complain s!"ERROR: {error}"]

/-- The line about a symbol and its production. -/
def symbolLine (row : Symbol × Production) : Chunk :=
  let marker := if row.1.isSynthetic then " (group)" else ""
  let count := row.2.size
  say (s!"  {row.1}{marker}" ++ s!": {count} alternatives")

/-- Sets or shows the seed. -/
def seedCommand (session : Session σ) : List Text → List Chunk × Session σ
  | [] => ([seedLine session.engine], session)
  | argument :: _ =>
    match parseSeed argument with
    | some seed =>
      ([say s!"Seed set to {seed}"], { session with engine := session.engine.reseed seed })
    | none => ([say ("Invalid seed: " ++ String.ofList argument)], session)

/-- Reports on a number of sentences. -/
def bulkCommand (session : Session σ) : List Text → List Chunk × Next σ
  | [] => ([say "Usage: bulk <n>"], .session session)
  | argument :: _ =>
    match parseNumber maxNumber argument with
    | some (n + 1) =>
      match batch session.engine (n + 1) with
      | .error crash => ([], .crash crash)
      | .ok (result, engine) =>
        let (lines, crash) := reportLines result
        (lines.map say, (crash.map .crash).getD (.session { session with engine := engine }))
    | _ => ([say ("Invalid count: " ++ String.ofList argument)], .session session)

/-- Generates from the given symbol, or else from the start symbol. -/
def genCommand (session : Session σ) (arguments : List Text) : List Chunk × Session σ :=
  let (result, engine) :=
    match arguments with
    | [] => session.engine.generate
    | name :: _ => session.engine.generateFrom name
  (textLines result, { session with engine := engine })

/-- Generates once and shows the choices. -/
def traceCommand (session : Session σ) : List Chunk × Session σ :=
  let (result, engine) := session.engine.generateTraced
  (traceLines result, { session with engine := engine })

/-- Builds the engine anew with the seed in use. A failure leaves the session as it is. -/
def reloadCommand (read : Builder.FileReader m) (entropy : σ) (session : Session σ) :
    m (List Chunk × Session σ) := do
  let seed := session.engine.seed.or session.options.seed
  match ← load read entropy session.options seed with
  | (chunks, some engine) =>
    let count := engine.grammar.table.rows.length
    return (chunks ++ [say s!"Reloaded {count} symbols"], { session with engine := engine })
  | (chunks, none) => return (chunks ++ [say "Keeping the previous grammar."], session)

/-- Answers a line. -/
def answer (read : Builder.FileReader m) (entropy : σ) (session : Session σ) (line : Text) :
    m (List Chunk × Next σ) := do
  let go (reply : List Chunk × Session σ) : List Chunk × Next σ := (reply.1, .session reply.2)
  match line.words with
  | [] => return ([], .session session)
  | first :: arguments =>
    let command := Unicode.lowerText first
    let isOneOf (names : List String) : Bool := names.any fun name => name.toList = command
    if isOneOf ["quit", "exit", "q"] then return ([say "Goodbye."], .quit)
    else if isOneOf ["help", "h", "?"] then return (helpText, .session session)
    else if isOneOf ["gen", "g"] then return go (genCommand session arguments)
    else if isOneOf ["trace"] then return go (traceCommand session)
    else if isOneOf ["seed"] then return go (seedCommand session arguments)
    else if isOneOf ["symbols"] then
      return (session.engine.grammar.table.rows.map symbolLine, .session session)
    else if isOneOf ["reload"] then return go (← reloadCommand read entropy session)
    else if isOneOf ["bulk"] then return bulkCommand session arguments
    else
      let unknown := "Unknown command: '" ++ String.ofList command ++
        "'. Type 'help' for available commands."
      return ([say unknown], .session session)

/-! ## The beginning -/

/-- How a run of the program begins: it ends at once with an exit code, or a session opens. -/
inductive Beginning (σ : Type) where
  | done (code : Nat)
  | opened (session : Session σ)

/-- Opens a session with some options. -/
def openWith (read : Builder.FileReader m) (entropy : σ) (options : Options) :
    m (List Chunk × Beginning σ) := do
  match ← load read entropy options options.seed with
  | (chunks, none) => return (chunks, .done 1)
  | (chunks, some engine) =>
    let count := engine.grammar.table.rows.length
    let greeting :=
      [say s!"Loaded {count} symbols", seedLine engine, say "Type 'help' for commands.", say ""]
    return (chunks ++ greeting, .opened ⟨options, engine⟩)

/-- Begins a run with the arguments of the command line. -/
def start (read : Builder.FileReader m) (entropy : σ) (arguments : List Text) :
    m (List Chunk × Beginning σ) := do
  if asksUsage arguments then return (usage, .done 0)
  else
    match readOptions ⟨none, none, none⟩ arguments with
    | .ok options => openWith read entropy options
    | .error (.invalidSeed text) =>
      return ([complain (ArgumentError.invalidSeed text).message], .done 1)
    | .error (.unknownArgument text) =>
      return (complain (ArgumentError.unknownArgument text).message :: usage, .done 1)

/-! ## Input -/

/-- The lines of some bytes, each with the line feed at its end, if it has one. -/
def byteLines (bytes : List UInt8) : List (List UInt8) :=
  match bytes with
  | [] => []
  | byte :: rest =>
    if byte = 10 then [byte] :: byteLines rest
    else
      match byteLines rest with
      | [] => [[byte]]
      | line :: lines => (byte :: line) :: lines

/-- Answers lines of input one after the other, with the prompt before each. The program ends with
the command to quit, with a crash, or with a line that is no text. -/
def answerLines (read : Builder.FileReader m) (entropy : σ) (session : Session σ) :
    List (List UInt8) → m (List Chunk × Next σ)
  | [] => return ([], .session session)
  | bytes :: rest => do
    match decode (ByteArray.mk bytes.toArray) with
    | .error _ => return ([prompt], .quit)
    | .ok line =>
      match ← answer read entropy session line with
      | (chunks, .session session) =>
        let (more, ending) ← answerLines read entropy session rest
        return (prompt :: chunks ++ more, ending)
      | (chunks, ending) => return (prompt :: chunks, ending)

end TextGrammar.Shell
