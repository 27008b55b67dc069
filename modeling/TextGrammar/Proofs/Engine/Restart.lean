import Mathlib.Control.Monad.Basic
import TextGrammar.Engine.Builder
import TextGrammar.Playground.Basic
import TextGrammar.Random.Generator

/-!
# Beginning anew

An engine that begins anew with a seed has no memory of what it was asked before, whatever failed
on the way: it is the engine that is built from the same grammar with that seed. That is so with
any source that a seed determines.

* `Engine.grammar_run` and `Playground.Keeps.run`: no operation changes the grammar.
* `Engine.eq_start_of_build`: all that a builder passes on is a grammar and a seed.
* `Playground.reset_eq`: compiling the source again and reseeding come to the same.
* `restart_erases_history` is the result.
-/

namespace TextGrammar

/-! ## Engines -/

namespace Engine

/-- Something an engine is asked for. -/
inductive Operation where
  /-- A text from the start symbol. -/
  | generate
  /-- A text from the symbol with a given name, which may be no name at all. -/
  | generateFrom (name : Text)
  /-- A number of texts from the start symbol. -/
  | generateVariants (count : Nat)
  /-- A text with the choices that led to it. -/
  | generateTraced
  /-- A new beginning. -/
  | reseed (seed : UInt64)
deriving DecidableEq, Repr

/-- What an operation answers. -/
inductive Answer where
  | text (result : Except EngineError Text)
  | texts (result : Except EngineError (List Text))
  | traced (result : Except EngineError (Text × List TraceStep))
  | reseeded

/-- What is seen of an engine right after an operation. -/
structure Observation where
  answer : Answer
  seed : Option UInt64
  generationCount : UInt64

variable {σ : Type} {engine : Engine σ}

theorem grammar_finishRun {α : Type} (engine : Engine σ) (run : Generated σ α) :
    (engine.finishRun run).2.grammar = engine.grammar := by
  obtain ⟨result, generator⟩ := run
  cases result with
  | ok a => rfl
  | error error => rfl

variable [SeededSource σ]

/-- Carries an operation out. -/
def perform (engine : Engine σ) : Operation → Answer × Engine σ
  | .generate => engine.generate.map .text id
  | .generateFrom name => (engine.generateFrom name).map .text id
  | .generateVariants count => (engine.generateVariants count).map .texts id
  | .generateTraced => engine.generateTraced.map .traced id
  | .reseed seed => (.reseeded, engine.reseed seed)

/-- Carries operations out, one after the other. -/
def run (engine : Engine σ) : List Operation → List Observation × Engine σ
  | [] => ([], engine)
  | operation :: rest =>
    let (answer, next) := engine.perform operation
    let (observations, last) := run next rest
    (⟨answer, next.seed, next.generationCount⟩ :: observations, last)

theorem grammar_generateEach (engine : Engine σ) (count : Nat) :
    (engine.generateEach count).2.grammar = engine.grammar := by
  induction count generalizing engine with
  | zero => rfl
  | succ count ih =>
    have hfirst : engine.generate.2.grammar = engine.grammar := grammar_finishRun engine _
    unfold generateEach
    split
    · rename_i hrun
      rw [hrun] at hfirst
      exact hfirst
    · rename_i next hrun
      rw [hrun] at hfirst
      exact (ih next).trans hfirst

theorem grammar_generateVariants (engine : Engine σ) (count : Nat) :
    (engine.generateVariants count).2.grammar = engine.grammar := by
  unfold generateVariants
  split
  · exact grammar_generateEach engine count
  · rfl

/-- No operation changes the grammar. -/
theorem grammar_perform (engine : Engine σ) (operation : Operation) :
    (engine.perform operation).2.grammar = engine.grammar := by
  cases operation with
  | generate => exact grammar_finishRun engine _
  | generateFrom name =>
    show (engine.generateFrom name).2.grammar = engine.grammar
    unfold generateFrom
    split
    · exact grammar_finishRun engine _
    · rfl
  | generateVariants count => exact grammar_generateVariants engine count
  | generateTraced => exact grammar_finishRun engine _
  | reseed seed => rfl

theorem grammar_run (engine : Engine σ) (operations : List Operation) :
    (engine.run operations).2.grammar = engine.grammar := by
  induction operations generalizing engine with
  | nil => rfl
  | cons operation rest ih =>
    exact (ih (engine.perform operation).2).trans (grammar_perform engine operation)

/-- An engine that begins anew is a new one: the generator, the seed and the count are all there
is besides the grammar. -/
theorem reseed_eq_start (engine : Engine σ) (seed : UInt64) (entropy : σ) :
    engine.reseed seed = start engine.grammar (some seed) entropy :=
  rfl

theorem run_bind_eq_ok {ε α β : Type} {first : ExceptT ε Id α} {next : α → ExceptT ε Id β} {b : β} :
    (first >>= next).run = .ok b ↔ ∃ a, first.run = .ok a ∧ (next a).run = .ok b := by
  rw [ExceptT.run_bind]
  cases hfirst : first.run with
  | error error => exact ⟨nofun, fun ⟨_, h, _⟩ => nomatch h⟩
  | ok a => exact ⟨fun h => ⟨a, rfl, h⟩, fun ⟨_, rfl, h⟩ => h⟩

/-- Wherever a builder took the parts of an engine from, only its grammar and its seed matter. -/
theorem eq_start_of_build {builder : Builder} {read : Builder.FileReader Id} {entropy : σ}
    (h : builder.build read entropy = .ok engine) :
    engine = start engine.grammar engine.seed entropy := by
  obtain ⟨config, -, hrest⟩ := run_bind_eq_ok.1 h
  obtain ⟨grammar, -, hdone⟩ := run_bind_eq_ok.1 hrest
  cases hdone
  rfl

/-- A builder that has a source and a seed builds the engine of that grammar. -/
theorem build_of_compile {source : Text} {grammar : Grammar}
    (hcompile : Grammar.compile source = .ok grammar) (read : Builder.FileReader Id)
    (seed : UInt64) (entropy : σ) :
    { Builder.new with source := some source, seed := some seed }.build read entropy =
      .ok (start grammar (some seed) entropy) := by
  have hlimits : Builder.new.limits EngineConfig.standard = Limits.standard := rfl
  have hchosen : (Builder.chosenGrammar (m := Id) read
      { Builder.new with source := some source, seed := some seed } EngineConfig.standard).run =
        .ok grammar := by
    rw [Grammar.compile, ← hlimits] at hcompile
    simp only [Builder.chosenGrammar, Builder.new, Builder.limits] at hcompile ⊢
    rw [hcompile]
    rfl
  exact run_bind_eq_ok.2 ⟨EngineConfig.standard, rfl, run_bind_eq_ok.2 ⟨grammar, hchosen, rfl⟩⟩

end Engine

/-! ## Playgrounds -/

namespace Playground

/-- Something a playground is asked for. -/
inductive Operation where
  /-- A text. -/
  | generate
  /-- A number of texts. -/
  | generateVariants (count : Nat)
  /-- A text with the choices that led to it. -/
  | trace
  /-- What is known of every symbol. -/
  | symbols
  /-- A new beginning. -/
  | reset (seed : UInt64)
deriving DecidableEq, Repr

/-- What an operation answers. -/
inductive Answer where
  | text (result : Except EngineError Text)
  | done (result : Except EngineError Unit)

variable {σ : Type} {playground : Playground σ} {source : Text} {grammar : Grammar}

/-- A playground with a given source and the grammar that it is compiled to. -/
structure Keeps (source : Text) (grammar : Grammar) (playground : Playground σ) : Prop where
  source_eq : playground.source = source
  grammar_eq : playground.engine.grammar = grammar
  compile_eq : Grammar.compile source = .ok grammar

theorem Keeps.with_engine (h : Keeps source grammar playground) {engine : Engine σ}
    (hengine : engine.grammar = playground.engine.grammar) :
    Keeps source grammar { playground with engine := engine } :=
  ⟨h.source_eq, hengine.trans h.grammar_eq, h.compile_eq⟩

variable [SeededSource σ]

/-- Carries an operation out. -/
def perform (playground : Playground σ) : Operation → Answer × Playground σ
  | .generate => playground.generate.map .text id
  | .generateVariants count => (playground.generateVariants count).map .text id
  | .trace => playground.trace.map .text id
  | .symbols => (.text (.ok playground.symbols), playground)
  | .reset seed => (playground.reset seed).map .done id

/-- Carries operations out, one after the other. -/
def run (playground : Playground σ) : List Operation → List Answer × Playground σ
  | [] => ([], playground)
  | operation :: rest =>
    let (answer, next) := playground.perform operation
    let (answers, last) := run next rest
    (answer :: answers, last)

theorem new_eq (hcompile : Grammar.compile source = .ok grammar) (seed : UInt64) :
    let generator : σ := SeededSource.ofSeed seed
    new source seed = .ok ⟨Engine.start grammar (some seed) generator, source⟩ := by
  rw [new, hcompile]

theorem exists_keeps_of_new {seed : UInt64} (h : new source seed = .ok playground) :
    ∃ grammar, Keeps source grammar playground := by
  cases hcompile : Grammar.compile source with
  | error error =>
    rw [new, hcompile] at h
    cases h
  | ok grammar =>
    rw [new_eq hcompile] at h
    cases h
    exact ⟨grammar, rfl, rfl, hcompile⟩

/-- Compiling the source again gives the playground that reseeding its engine would. -/
theorem reset_eq (h : Keeps source grammar playground) (seed : UInt64) :
    new source seed = .ok { playground with engine := playground.engine.reseed seed } ∧
      playground.reset seed =
        (.ok (), { playground with engine := playground.engine.reseed seed }) := by
  have hnew := new_eq (σ := σ) h.compile_eq seed
  have hengine := Engine.reseed_eq_start playground.engine seed (SeededSource.ofSeed seed)
  rw [h.grammar_eq] at hengine
  constructor
  · rw [hnew, hengine, h.source_eq]
  · rw [reset, h.source_eq, hnew, hengine]

/-- No operation changes the source or the grammar. -/
theorem Keeps.perform (h : Keeps source grammar playground) (operation : Operation) :
    Keeps source grammar (playground.perform operation).2 := by
  cases operation with
  | generate => exact h.with_engine (Engine.grammar_perform playground.engine .generate)
  | generateVariants count =>
    exact h.with_engine (Engine.grammar_generateVariants playground.engine count)
  | trace => exact h.with_engine (Engine.grammar_perform playground.engine .generateTraced)
  | symbols => exact h
  | reset seed =>
    rw [Playground.perform, (reset_eq h seed).2]
    exact h.with_engine (Engine.grammar_perform playground.engine (.reseed seed))

theorem Keeps.run (h : Keeps source grammar playground) (operations : List Operation) :
    Keeps source grammar (playground.run operations).2 := by
  induction operations generalizing playground with
  | nil => exact h
  | cons operation rest ih => exact ih (h.perform operation)

end Playground

/-! ## The result -/

/-- Beginning anew erases history. After any operations, failing ones included, an engine that is
reseeded answers all later operations as one that was just built with the same grammar and that
seed, and so does its state; and such an engine can be built. A playground that was compiled once
can always begin anew; then it is the one that its source and the new seed give, and its engine is
the reseeded one. -/
theorem restart_erases_history {σ : Type} [SeededSource σ] :
    (∀ (engine : Engine σ) (read : Builder.FileReader Id) (entropy : σ) (seed : UInt64),
      (∃ fresh, Builder.build read entropy
          { Builder.new with grammar := some engine.grammar, seed := some seed } = .ok fresh ∧
        fresh.grammar = engine.grammar ∧ fresh.seed = some seed) ∧
      ∀ (builder : Builder) (fresh : Engine σ), builder.build read entropy = .ok fresh →
        fresh.grammar = engine.grammar → fresh.seed = some seed →
        ∀ history later : List Engine.Operation,
          ((engine.run history).2.reseed seed).run later = fresh.run later) ∧
    ∀ (source : Text) (seed₀ : UInt64) (playground : Playground σ),
      Playground.new source seed₀ = .ok playground →
      ∀ (history : List Playground.Operation) (seed : UInt64),
        ∃ fresh, Playground.new source seed = .ok fresh ∧
          (playground.run history).2.reset seed = (.ok (), fresh) ∧
          fresh.engine = (playground.run history).2.engine.reseed seed ∧
          ∀ later : List Playground.Operation,
            ((playground.run history).2.reset seed).2.run later = fresh.run later := by
  constructor
  · intro engine read entropy seed
    refine ⟨⟨Engine.start engine.grammar (some seed) entropy, rfl, rfl, rfl⟩, ?_⟩
    intro builder fresh hbuild hgrammar hseed history later
    have hfresh := Engine.eq_start_of_build hbuild
    rw [hgrammar, hseed] at hfresh
    rw [Engine.reseed_eq_start _ seed entropy, Engine.grammar_run, hfresh]
  · intro source seed₀ playground hnew history seed
    obtain ⟨grammar, hkeeps⟩ := Playground.exists_keeps_of_new hnew
    obtain ⟨hfresh, hreset⟩ := Playground.reset_eq (hkeeps.run history) seed
    exact ⟨_, hfresh, hreset, rfl, fun later => by rw [hreset]⟩

/-- A source whose grammar fails for every other choice. -/
def brittleSource : Text :=
  "$s = fine|$broken;".toList

/-- The grammar of that source. -/
def brittleGrammar : Grammar :=
  let broken := Symbol.ofIdentifier ['b', 'r', 'o', 'k', 'e', 'n']
  ⟨⟨[(.start, ⟨[⟨[.literal ['f', 'i', 'n', 'e']]⟩, ⟨[.ref broken]⟩]⟩)], []⟩, .start, .standard⟩

/-- A builder that compiles that source. -/
def brittleBuilder : Builder :=
  { Builder.new with source := some brittleSource, seed := some 7 }

/-- Operations of which two fail before any choice is made, and others may fail halfway. -/
def brittleHistory : List Engine.Operation :=
  [.generate, .generateFrom ['s'], .generateFrom "$broken".toList, .generateVariants 4, .reseed 9,
    .generateTraced, .generateVariants 6]

/-- What the engine of a program without a seed would begin with. -/
def brittleEntropy : Generator :=
  .ofSeed 2

theorem brittle_restart :
    let engine := Engine.start brittleGrammar none brittleEntropy
    let seeded := Engine.start brittleGrammar (some 2) brittleEntropy
    let playground : Playground Generator := ⟨seeded, brittleSource⟩
    (brittleBuilder.build (m := Id) (fun _ => .error .notFound) brittleEntropy =
        .ok (Engine.start brittleGrammar (some 7) brittleEntropy) ∧
      (engine.generateFrom ['s']).1 = .error (.grammar (.invalidSymbolName ['s'])) ∧
      ∀ later, ((engine.run brittleHistory).2.reseed 7).run later =
        (Engine.start brittleGrammar (some 7) brittleEntropy).run later) ∧
    Playground.new brittleSource 2 = .ok playground ∧
      ∃ fresh, Playground.new brittleSource 7 = .ok fresh ∧
        (playground.run [.generateVariants 6, .reset 9, .trace]).2.reset 7 = (.ok (), fresh) := by
  intro engine seeded playground
  obtain ⟨hengine, hplayground⟩ := restart_erases_history (σ := Generator)
  have hcompile : Grammar.compile brittleSource = .ok brittleGrammar := by decide +kernel
  have hbuild : brittleBuilder.build (m := Id) (fun _ => .error .notFound) brittleEntropy =
      .ok (Engine.start brittleGrammar (some 7) brittleEntropy) :=
    Engine.build_of_compile hcompile ..
  have hnew : Playground.new brittleSource 2 = .ok playground := Playground.new_eq hcompile 2
  obtain ⟨fresh, hfresh, hreset, -, -⟩ :=
    hplayground _ _ _ hnew [.generateVariants 6, .reset 9, .trace] 7
  exact ⟨⟨hbuild, rfl, fun later =>
    (hengine engine _ _ 7).2 brittleBuilder _ hbuild rfl rfl brittleHistory later⟩,
    hnew, fresh, hfresh, hreset⟩

end TextGrammar
