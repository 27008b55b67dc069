import TextGrammar.Proofs.Engine.Restart
import TextGrammar.Proofs.Expansion.Traces

/-!
# Bookkeeping

What an engine keeps for its user is exact: its count is the number of the texts it has produced,
and all that a failure leaves behind is a generator that has moved on.

* `Ledger` holds the texts that operations produce and what they ask the generator.
* `Engine.Accounts` says how an engine differs from the one before, by a ledger. `accounts_perform`
  is one operation, `accounts_run` a run.
* `Engine.Alike` compares engines with different counts and seeds, and `Alike.run` their runs.
* `Engine.generateEach_eq_run`: a batch that there is room for is a row of single calls.
* `Engine.bookkeeping_exact` is the result, and `Engine.batch_without_room` a batch that ends in
  another way than the calls it stands for.
-/

namespace TextGrammar

/-- What a source is asked leads to one source only. -/
theorem Replies.eq {σ : Type} [RandomSource σ] {source last last' : σ} {picks : List Pick}
    (h : Replies source picks last) (h' : Replies source picks last') : last = last' := by
  induction picks generalizing source with
  | nil => exact Eq.trans (Eq.symm h) h'
  | cons asked rest ih =>
    obtain ⟨next, hpick, hrest⟩ := h
    obtain ⟨next', hpick', hrest'⟩ := h'
    rw [hpick] at hpick'
    cases hpick'
    exact ih hrest hrest'

/-- A journal does not change what a grammar generates, and holds what the source was asked. -/
theorem Grammar.generateFrom_journal {σ : Type} [RandomSource σ] (grammar : Grammar)
    (symbol : Symbol) (source : σ) :
    ∃ picks, grammar.generateFrom symbol (Journal.start source) =
        ((grammar.generateFrom symbol source).1, ⟨(grammar.generateFrom symbol source).2, picks⟩) ∧
      Replies source picks (grammar.generateFrom symbol source).2 := by
  have hanswered := (grammar.table.call_visit grammar.limits.maxExpansionDepth
    grammar.limits.maxExpansionDepth [] symbol source).answered
  refine ⟨_, ?_, hanswered⟩
  simp only [generateFrom, expandRaw, Table.new_expand, Table.expand_journal]
  rfl

/-! ## Ledgers -/

/-- What operations come to. -/
structure Ledger where
  /-- The texts that were produced, also those of a batch that fails later on. -/
  texts : List Text
  /-- What the generator was asked, with its answers. -/
  picks : List Pick
deriving DecidableEq, Repr

/-- The ledger of no operation. -/
def Ledger.empty : Ledger :=
  ⟨[], []⟩

instance : Append Ledger where
  append first second := ⟨first.texts ++ second.texts, first.picks ++ second.picks⟩

namespace Engine

/-- The texts that an answer brings. -/
def Answer.produced : Answer → List Text
  | .text result => result.toOption.toList
  | .texts result => result.toOption.getD []
  | .traced result => (result.map Prod.fst).toOption.toList
  | .reseeded => []

variable {σ : Type}

/-- Whatever its result is, a run moves the generator on, and only a text is counted. -/
theorem finishRun_eq {α : Type} (engine : Engine σ) (run : Generated σ α) :
    engine.finishRun run = (run.1.mapError .expansion, { engine with
      generator := run.2
      generationCount :=
        engine.generationCount + UInt64.ofNat run.1.toOption.toList.length }) := by
  obtain ⟨result, generator⟩ := run
  cases result with
  | ok a => rfl
  | error error =>
    have hcount : engine.generationCount + UInt64.ofNat 0 = engine.generationCount :=
      UInt64.add_zero _
    exact congrArg (fun count => (_, { engine with
      generator := generator
      generationCount := count })) hcount.symm

variable [SeededSource σ]

/-- The ledger of one attempt at a text. -/
def attempt (engine : Engine σ) (symbol : Symbol) : Ledger :=
  let (result, journal) := engine.grammar.generateFrom symbol (Journal.start engine.generator)
  ⟨result.toOption.toList, journal.picks⟩

/-- The ledger of attempts at a number of texts, up to the first that fails. -/
def batch (engine : Engine σ) : Nat → Ledger
  | 0 => .empty
  | count + 1 =>
    match engine.generate with
    | (.ok _, next) => engine.attempt engine.grammar.start ++ next.batch count
    | (.error _, _) => engine.attempt engine.grammar.start

/-- The ledger of an attempt at a text from the symbol with a given name. -/
def attemptFrom (engine : Engine σ) (name : Text) : Ledger :=
  match Symbol.parse? name with
  | some symbol => engine.attempt symbol
  | none => .empty

/-- The ledger of an operation. Where there is no room for a batch, nothing is attempted. -/
def ledger (engine : Engine σ) : Operation → Ledger
  | .generate => engine.attempt engine.grammar.start
  | .generateFrom name => engine.attemptFrom name
  | .generateVariants count => if count ≤ maxTexts then engine.batch count else .empty
  | .generateTraced => engine.attempt engine.grammar.start
  | .reseed _ => .empty

/-- The ledger of operations, one after the other. -/
def ledgerOf (engine : Engine σ) : List Operation → Ledger
  | [] => .empty
  | operation :: rest => engine.ledger operation ++ ledgerOf (engine.perform operation).2 rest

/-- A ledger tells how an engine differs from the one that it comes from. -/
structure Accounts (engine : Engine σ) (ledger : Ledger) (next : Engine σ) : Prop where
  grammar_eq : next.grammar = engine.grammar
  seed_eq : next.seed = engine.seed
  generationCount_eq :
    next.generationCount = engine.generationCount + UInt64.ofNat ledger.texts.length
  replies : Replies engine.generator ledger.picks next.generator

section Accounts

variable {engine next last : Engine σ} {first second : Ledger}

theorem Accounts.refl (engine : Engine σ) : Accounts engine .empty engine :=
  ⟨rfl, rfl, (UInt64.add_zero _).symm, rfl⟩

theorem Accounts.trans (h : Accounts engine first next) (h' : Accounts next second last) :
    Accounts engine (first ++ second) last where
  grammar_eq := h'.grammar_eq.trans h.grammar_eq
  seed_eq := h'.seed_eq.trans h.seed_eq
  generationCount_eq := by
    have hlength : (first ++ second).texts.length = first.texts.length + second.texts.length :=
      List.length_append
    rw [h'.generationCount_eq, h.generationCount_eq, hlength, UInt64.ofNat_add, UInt64.add_assoc]
  replies := replies_append.2 ⟨next.generator, h.replies, h'.replies⟩

/-- An attempt is accounted for, also if it fails. -/
theorem accounts_attempt (engine : Engine σ) (symbol : Symbol) :
    Accounts engine (engine.attempt symbol)
      (engine.finishRun (engine.grammar.generateFrom symbol engine.generator)).2 := by
  obtain ⟨picks, hjournal, hreplies⟩ :=
    engine.grammar.generateFrom_journal symbol engine.generator
  unfold attempt
  rw [hjournal, finishRun_eq]
  exact ⟨rfl, rfl, rfl, hreplies⟩

theorem texts_attempt (engine : Engine σ) (symbol : Symbol) :
    (engine.attempt symbol).texts = (engine.finishRun
      (engine.grammar.generateFrom symbol engine.generator)).1.toOption.toList := by
  obtain ⟨picks, hjournal, -⟩ := engine.grammar.generateFrom_journal symbol engine.generator
  unfold attempt
  rw [hjournal, finishRun_eq]
  cases (engine.grammar.generateFrom symbol engine.generator).1 with
  | ok text => rfl
  | error error => rfl

theorem accounts_generate (engine : Engine σ) :
    Accounts engine (engine.attempt engine.grammar.start) engine.generate.2 :=
  engine.accounts_attempt engine.grammar.start

/-- A text with its choices is generated the way a text is. -/
theorem generate_eq_generateTraced (engine : Engine σ) :
    engine.generate = (engine.generateTraced.1.map Prod.fst, engine.generateTraced.2) := by
  unfold generate generateTraced
  rw [Grammar.generate_eq_generateTraced, finishRun_eq, finishRun_eq]
  cases (engine.grammar.generateTraced engine.generator).1 with
  | ok a => rfl
  | error error => rfl

/-- A batch is accounted for, whether it fails or not. -/
theorem accounts_batch (engine : Engine σ) (count : Nat) :
    Accounts engine (engine.batch count) (engine.generateEach count).2 := by
  induction count generalizing engine with
  | zero => exact .refl engine
  | succ count ih =>
    have hfirst := engine.accounts_generate
    unfold batch generateEach
    split
    · rename_i text next hrun
      rw [hrun] at hfirst ⊢
      exact hfirst.trans (ih next)
    · rename_i error next hrun
      rw [hrun] at hfirst ⊢
      exact hfirst

theorem accounts_perform (engine : Engine σ) {operation : Operation}
    (h : ∀ seed, operation ≠ .reseed seed) :
    Accounts engine (engine.ledger operation) (engine.perform operation).2 := by
  cases operation with
  | generate => exact engine.accounts_generate
  | generateFrom name =>
    show Accounts engine (engine.attemptFrom name) (engine.generateFrom name).2
    unfold attemptFrom generateFrom
    cases Symbol.parse? name with
    | none => exact .refl engine
    | some symbol => exact engine.accounts_attempt symbol
  | generateVariants count =>
    rw [ledger, perform, generateVariants]
    split_ifs
    · exact engine.accounts_batch count
    · exact .refl engine
  | generateTraced =>
    have hgenerate := engine.accounts_generate
    rw [generate_eq_generateTraced] at hgenerate
    exact hgenerate
  | reseed seed => exact absurd rfl (h seed)

/-- A run is accounted for, as long as the engine does not begin anew. -/
theorem accounts_run (engine : Engine σ) {operations : List Operation}
    (h : ∀ seed, Operation.reseed seed ∉ operations) :
    Accounts engine (engine.ledgerOf operations) (engine.run operations).2 := by
  induction operations generalizing engine with
  | nil => exact .refl engine
  | cons operation rest ih =>
    have hfirst : ∀ seed, operation ≠ .reseed seed := by
      rintro seed rfl
      exact h seed List.mem_cons_self
    have hrest : ∀ seed, Operation.reseed seed ∉ rest :=
      fun seed hmem => h seed (List.mem_cons_of_mem operation hmem)
    exact (engine.accounts_perform hfirst).trans (ih _ hrest)

/-- The texts in a ledger are those that the operation answers with. A batch that fails does not
answer with any. -/
theorem texts_perform (engine : Engine σ) {operation : Operation}
    (h : ∀ count, operation ≠ .generateVariants count) :
    (engine.perform operation).1.produced = (engine.ledger operation).texts := by
  cases operation with
  | generate => exact (engine.texts_attempt engine.grammar.start).symm
  | generateFrom name =>
    show (engine.generateFrom name).1.toOption.toList = (engine.attemptFrom name).texts
    unfold attemptFrom generateFrom
    cases Symbol.parse? name with
    | none => rfl
    | some symbol => exact (engine.texts_attempt symbol).symm
  | generateVariants count => exact absurd rfl (h count)
  | generateTraced =>
    have hgenerate := engine.texts_attempt engine.grammar.start
    have hsame : engine.finishRun (engine.grammar.generateFrom engine.grammar.start
        engine.generator) = engine.generate := rfl
    rw [hsame, generate_eq_generateTraced] at hgenerate
    exact hgenerate.symm
  | reseed seed => rfl

end Accounts

/-! ## Batches -/

/-- A batch is a row of single calls: as many as there are texts if it succeeds, and one more, the
one that fails, if it does not. -/
theorem generateEach_eq_run (engine : Engine σ) (count : Nat) :
    let texts := (engine.batch count).texts
    let calls := engine.run (List.replicate texts.length .generate)
    calls.1.map Observation.answer = texts.map (fun text => .text (.ok text)) ∧
      (texts.length = count ∧ engine.generateEach count = (.ok texts, calls.2) ∨
        texts.length < count ∧ ∃ error next, calls.2.generate = (.error error, next) ∧
          engine.generateEach count = (.error error, next)) := by
  induction count generalizing engine with
  | zero => exact ⟨rfl, .inl ⟨rfl, rfl⟩⟩
  | succ count ih =>
    have htexts : (engine.attempt engine.grammar.start).texts =
        engine.generate.1.toOption.toList := engine.texts_attempt engine.grammar.start
    unfold batch generateEach
    cases hrun : engine.generate with
    | mk result next =>
      rw [hrun] at htexts
      cases result with
      | error error =>
        have hnone : (engine.attempt engine.grammar.start).texts = [] := htexts
        simp only [hnone]
        exact ⟨rfl, .inr ⟨Nat.succ_pos count, error, next, hrun, rfl⟩⟩
      | ok text =>
        have hsome : (engine.attempt engine.grammar.start ++ next.batch count).texts =
            text :: (next.batch count).texts := congrArg (· ++ (next.batch count).texts) htexts
        have hperform : engine.perform .generate = (.text (.ok text), next) := by
          rw [perform, hrun]
          rfl
        obtain ⟨hanswers, hend⟩ := ih next
        simp only [hsome, List.length_cons, List.replicate_succ, run, hperform, List.map_cons]
        refine ⟨congrArg _ hanswers, ?_⟩
        rcases hend with ⟨hlength, heq⟩ | ⟨hlength, error, last, hfail, heq⟩
        · exact .inl ⟨congrArg (· + 1) hlength, by rw [heq]; rfl⟩
        · exact .inr ⟨Nat.succ_lt_succ hlength, error, last, hfail, by rw [heq]; rfl⟩

/-! ## Engines that go on alike -/

/-- Engines that differ in their seeds and their counts at most. -/
structure Alike (engine other : Engine σ) : Prop where
  grammar_eq : engine.grammar = other.grammar
  generator_eq : engine.generator = other.generator

section Alike

variable {engine other : Engine σ}

omit [SeededSource σ] in
theorem Alike.finishRun {α : Type} (h : Alike engine other) (run : Generated σ α) :
    (engine.finishRun run).1 = (other.finishRun run).1 ∧
      Alike (engine.finishRun run).2 (other.finishRun run).2 := by
  rw [finishRun_eq, finishRun_eq]
  exact ⟨rfl, h.grammar_eq, rfl⟩

theorem Alike.attempt (h : Alike engine other) (symbol : Symbol) :
    engine.attempt symbol = other.attempt symbol := by
  unfold Engine.attempt
  rw [h.grammar_eq, h.generator_eq]

theorem Alike.attempt_start (h : Alike engine other) :
    engine.attempt engine.grammar.start = other.attempt other.grammar.start := by
  rw [h.attempt, h.grammar_eq]

theorem Alike.generate (h : Alike engine other) :
    engine.generate.1 = other.generate.1 ∧ Alike engine.generate.2 other.generate.2 := by
  unfold Engine.generate
  rw [h.grammar_eq, h.generator_eq]
  exact h.finishRun _

theorem Alike.generateTraced (h : Alike engine other) :
    engine.generateTraced.1 = other.generateTraced.1 ∧
      Alike engine.generateTraced.2 other.generateTraced.2 := by
  unfold Engine.generateTraced
  rw [h.grammar_eq, h.generator_eq]
  exact h.finishRun _

theorem Alike.generateFrom (h : Alike engine other) (name : Text) :
    (engine.generateFrom name).1 = (other.generateFrom name).1 ∧
      Alike (engine.generateFrom name).2 (other.generateFrom name).2 ∧
      engine.attemptFrom name = other.attemptFrom name := by
  unfold Engine.generateFrom attemptFrom
  cases Symbol.parse? name with
  | none => exact ⟨rfl, h, rfl⟩
  | some symbol =>
    obtain ⟨hresult, hnext⟩ :=
      h.finishRun (other.grammar.generateFrom symbol other.generator)
    rw [h.grammar_eq, h.generator_eq]
    exact ⟨hresult, hnext, h.attempt symbol⟩

theorem Alike.generateEach (h : Alike engine other) (count : Nat) :
    (engine.generateEach count).1 = (other.generateEach count).1 ∧
      Alike (engine.generateEach count).2 (other.generateEach count).2 ∧
      engine.batch count = other.batch count := by
  induction count generalizing engine other with
  | zero => exact ⟨rfl, h, rfl⟩
  | succ count ih =>
    obtain ⟨hresult, hnext⟩ := h.generate
    unfold Engine.generateEach batch
    rw [h.attempt_start]
    cases hengine : engine.generate with
    | mk result next =>
      cases hother : other.generate with
      | mk result' next' =>
        rw [hengine, hother] at hresult hnext
        obtain rfl : result = result' := hresult
        cases result with
        | error error => exact ⟨rfl, hnext, rfl⟩
        | ok text =>
          obtain ⟨hrest, hlast, hledger⟩ := ih hnext
          exact ⟨congrArg (Except.map (text :: ·)) hrest, hlast,
            congrArg (other.attempt other.grammar.start ++ ·) hledger⟩

/-- Engines that differ in their seeds and their counts only answer the same, for the same texts and
the same choices. -/
theorem Alike.perform (h : Alike engine other) (operation : Operation) :
    (engine.perform operation).1 = (other.perform operation).1 ∧
      Alike (engine.perform operation).2 (other.perform operation).2 ∧
      engine.ledger operation = other.ledger operation := by
  cases operation with
  | generate =>
    obtain ⟨hresult, hnext⟩ := h.generate
    exact ⟨congrArg Answer.text hresult, hnext, h.attempt_start⟩
  | generateFrom name =>
    obtain ⟨hresult, hnext, hledger⟩ := h.generateFrom name
    exact ⟨congrArg Answer.text hresult, hnext, hledger⟩
  | generateVariants count =>
    rw [Engine.perform, Engine.perform, ledger, ledger, generateVariants, generateVariants]
    split_ifs
    · obtain ⟨hresult, hnext, hledger⟩ := h.generateEach count
      exact ⟨congrArg Answer.texts hresult, hnext, hledger⟩
    · exact ⟨rfl, h, rfl⟩
  | generateTraced =>
    obtain ⟨hresult, hnext⟩ := h.generateTraced
    exact ⟨congrArg Answer.traced hresult, hnext, h.attempt_start⟩
  | reseed seed => exact ⟨rfl, ⟨h.grammar_eq, rfl⟩, rfl⟩

theorem Alike.run (h : Alike engine other) (operations : List Operation) :
    (engine.run operations).1.map Observation.answer =
        (other.run operations).1.map Observation.answer ∧
      Alike (engine.run operations).2 (other.run operations).2 ∧
      engine.ledgerOf operations = other.ledgerOf operations := by
  induction operations generalizing engine other with
  | nil => exact ⟨rfl, h, rfl⟩
  | cons operation rest ih =>
    obtain ⟨hanswer, hnext, hledger⟩ := h.perform operation
    obtain ⟨hanswers, hlast, hrest⟩ := ih hnext
    exact ⟨congrArg₂ List.cons hanswer hanswers, hlast,
      congrArg₂ (· ++ ·) hledger hrest⟩

end Alike

/-! ## The result -/

/-- An engine that was just built, or that has just begun anew. -/
inductive Begun : Engine σ → Prop where
  | built {builder : Builder} {read : Builder.FileReader Id} {entropy : σ} {engine : Engine σ}
      (h : builder.build read entropy = .ok engine) : Begun engine
  | reseeded (engine : Engine σ) (seed : UInt64) : Begun (engine.reseed seed)

theorem Begun.generationCount_eq {engine : Engine σ} (h : Begun engine) :
    engine.generationCount = 0 := by
  cases h with
  | built hbuild =>
    rw [eq_start_of_build hbuild]
    rfl
  | reseeded => rfl

/-- Reseeding is the only operation that changes the seed. -/
theorem seed_perform (engine : Engine σ) (operation : Operation) :
    (engine.perform operation).2.seed = engine.seed ∨
      ∃ seed, operation = .reseed seed ∧ (engine.perform operation).2.seed = some seed := by
  by_cases hseed : ∀ seed, operation ≠ .reseed seed
  · exact .inl (engine.accounts_perform hseed).seed_eq
  · push Not at hseed
    obtain ⟨seed, rfl⟩ := hseed
    exact .inr ⟨seed, rfl, rfl⟩

/-- The bookkeeping of an engine is exact. As long as it does not begin anew, its count is the
number of texts produced since it was built or reseeded, also by batches that failed later on, for
as many texts as a counter can hold; its grammar and its seed stay, and its generator has moved on
by what it was asked for. Nothing else is left of what was done, failures included: any engine with
that grammar whose generator has moved on so far answers all later operations the same, for the same
texts and the same choices. The texts of an operation are in its answer. A batch that there is room
for is a row of single calls, up to the first that fails; without room for it nothing is generated.
What is no name of a symbol changes nothing at all. -/
theorem bookkeeping_exact (engine : Engine σ) {operations : List Operation}
    (h : ∀ seed, Operation.reseed seed ∉ operations) :
    let ledger := engine.ledgerOf operations
    let last := (engine.run operations).2
    Accounts engine ledger last ∧
    (Begun engine → last.generationCount = UInt64.ofNat ledger.texts.length ∧
      (ledger.texts.length < 2 ^ 64 → last.generationCount.toNat = ledger.texts.length)) ∧
    (∀ operation, (last.perform operation).2.grammar = last.grammar ∧
      ((last.perform operation).2.seed = last.seed ∨
        ∃ seed, operation = .reseed seed ∧ (last.perform operation).2.seed = some seed)) ∧
    (∀ other : Engine σ, other.grammar = engine.grammar →
      Replies engine.generator ledger.picks other.generator → ∀ later,
        (last.run later).1.map Observation.answer = (other.run later).1.map Observation.answer ∧
          Alike (last.run later).2 (other.run later).2 ∧
          last.ledgerOf later = other.ledgerOf later) ∧
    (∀ operation, (∀ count, operation ≠ .generateVariants count) →
      (last.perform operation).1.produced = (last.ledger operation).texts) ∧
    (∀ count ≤ maxTexts,
      let texts := (last.ledger (.generateVariants count)).texts
      let calls := last.run (List.replicate texts.length .generate)
      calls.1.map Observation.answer = texts.map (fun text => .text (.ok text)) ∧
        (texts.length = count ∧ last.generateVariants count = (.ok texts, calls.2) ∨
          texts.length < count ∧ ∃ error next, calls.2.generate = (.error error, next) ∧
            last.generateVariants count = (.error error, next))) ∧
    (∀ count > maxTexts,
      last.generateVariants count = (.error (.crash .capacityOverflow), last)) ∧
    ∀ name, Symbol.parse? name = none →
      last.generateFrom name = (.error (.grammar (.invalidSymbolName name)), last) := by
  intro ledger last
  have haccounts : Accounts engine ledger last := engine.accounts_run h
  refine ⟨haccounts, ?_, fun operation => ⟨last.grammar_perform operation,
    last.seed_perform operation⟩, ?_, fun _ => last.texts_perform, ?_, ?_, ?_⟩
  · intro hbegun
    have hcount : last.generationCount = UInt64.ofNat ledger.texts.length := by
      rw [haccounts.generationCount_eq, hbegun.generationCount_eq, UInt64.zero_add]
    exact ⟨hcount, fun hlength => by rw [hcount, UInt64.toNat_ofNat_of_lt' hlength]⟩
  · intro other hgrammar hreplies
    have halike : Alike last other :=
      ⟨haccounts.grammar_eq.trans hgrammar.symm, haccounts.replies.eq hreplies⟩
    exact halike.run
  · intro count hroom
    rw [Engine.ledger, generateVariants, if_pos hroom, if_pos hroom]
    exact last.generateEach_eq_run count
  · intro count hmore
    exact if_neg (Nat.not_le.2 hmore)
  · intro name hname
    unfold generateFrom
    rw [hname]

/-- Operations of which a batch and two calls by name fail, with the seed of `brittleBuilder`. -/
def brittleOperations : List Operation :=
  [.generate, .generateFrom ['s'], .generateVariants 4, .generateFrom "$broken".toList,
    .generateTraced]

/-- What these operations come to. -/
def brittleLedger : Ledger :=
  let fine := "fine".toList
  ⟨[fine, fine, fine], [⟨2, 0⟩, ⟨2, 0⟩, ⟨2, 1⟩, ⟨2, 0⟩]⟩

theorem brittleOperations_bookkeeping :
    let engine := Engine.start brittleGrammar (some 7) brittleEntropy
    let last := (engine.run brittleOperations).2
    (brittleBuilder.build (m := Id) (fun _ => .error .notFound) brittleEntropy = .ok engine ∧
      (∀ seed, Operation.reseed seed ∉ brittleOperations) ∧
      engine.ledgerOf brittleOperations = brittleLedger) ∧
    last.grammar = brittleGrammar ∧ last.seed = some 7 ∧ last.generationCount.toNat = 3 ∧
    Replies engine.generator brittleLedger.picks last.generator ∧
    (∃ error next, engine.generateVariants 3 = (.error error, next) ∧
      (engine.run (List.replicate 2 .generate)).2.generate = (.error error, next)) ∧
    last.generateFrom ['s'] = (.error (.grammar (.invalidSymbolName ['s'])), last) := by
  intro engine last
  have hcompile : Grammar.compile brittleSource = .ok brittleGrammar := by decide +kernel
  have hbuild : brittleBuilder.build (m := Id) (fun _ => .error .notFound) brittleEntropy =
      .ok engine := build_of_compile hcompile ..
  have hreseed : ∀ seed, Operation.reseed seed ∉ brittleOperations := by
    simp [brittleOperations]
  have hledger : engine.ledgerOf brittleOperations = brittleLedger := by decide +kernel
  have hnone : ∀ seed, Operation.reseed seed ∉ ([] : List Operation) :=
    fun _ => List.not_mem_nil
  have hbatch : ((engine.run []).2.ledger (.generateVariants 3)).texts.length = 2 := by
    decide +kernel
  obtain ⟨haccounts, hcount, -, -, -, -, -, hname⟩ := engine.bookkeeping_exact hreseed
  obtain ⟨-, -, -, -, -, hvariants, -⟩ := engine.bookkeeping_exact hnone
  rw [hledger] at haccounts hcount
  refine ⟨⟨hbuild, hreseed, hledger⟩, haccounts.grammar_eq, haccounts.seed_eq,
    (hcount (.built hbuild)).2 (by decide), haccounts.replies, ?_, hname _ rfl⟩
  rcases (hvariants 3 (by decide)).2 with ⟨hlength, -⟩ | ⟨-, error, next, hfail, heq⟩
  · exact absurd (hbatch.symm.trans hlength) (by decide)
  · rw [hbatch] at hfail
    exact ⟨error, next, heq, hfail⟩

/-- A builder of an engine whose every attempt fails. -/
def hollowBuilder : Builder :=
  { Builder.new with source := some "$s = $missing;".toList, seed := some 7 }

/-- The grammar of that engine. -/
def hollowGrammar : Grammar :=
  let missing := Symbol.ofIdentifier "missing".toList
  ⟨⟨[(.start, ⟨[⟨[.ref missing]⟩]⟩)], []⟩, .start, .standard⟩

/-- More texts are asked for than there can be room for. The first call fails, and with it every row
of calls; the batch does not get that far, and ends in another way. -/
theorem batch_without_room :
    let engine := Engine.start hollowGrammar (some 7) brittleEntropy
    let failure := EngineError.expansion
      (.undefinedSymbol (Symbol.ofIdentifier "missing".toList) [.start])
    hollowBuilder.build (m := Id) (fun _ => .error .notFound) brittleEntropy = .ok engine ∧
    engine.generate.1 = .error failure ∧
    (engine.generateEach (2 ^ 60)).1 = .error failure ∧
    engine.generateVariants (2 ^ 60) = (.error (.crash .capacityOverflow), engine) ∧
    engine.generateVariants (2 ^ 60) ≠ engine.generateEach (2 ^ 60) := by
  intro engine failure
  have hcompile : Grammar.compile "$s = $missing;".toList = .ok hollowGrammar := by decide +kernel
  have hbuild : hollowBuilder.build (m := Id) (fun _ => .error .notFound) brittleEntropy =
      .ok engine := build_of_compile hcompile ..
  have hfirst : engine.generate.1 = .error failure := by decide +kernel
  have heach : (engine.generateEach (2 ^ 60)).1 = .error failure := by
    have hcount : 2 ^ 60 = (2 ^ 60 - 1) + 1 := rfl
    rw [hcount, generateEach]
    cases hrun : engine.generate with
    | mk result next =>
      rw [hrun] at hfirst
      obtain rfl : result = .error failure := hfirst
      rfl
  have hbatch : engine.generateVariants (2 ^ 60) = (.error (.crash .capacityOverflow), engine) :=
    if_neg (by decide)
  refine ⟨hbuild, hfirst, heach, hbatch, fun heq => ?_⟩
  rw [← heq, hbatch] at heach
  simp [failure] at heach

end Engine

end TextGrammar
