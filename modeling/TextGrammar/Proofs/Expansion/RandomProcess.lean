import Mathlib.Algebra.BigOperators.Ring.Finset
import Mathlib.Data.Stream.Init
import Mathlib.Tactic.NormNum
import TextGrammar.Proofs.Expansion.Traces

/-!
# Expansion as a random process

What an expansion asks next depends on what it was answered so far, so its runs form a tree: each
node is a question, with a branch for every answer in range. Where all answers to a question are
equally likely, the runs are the outcomes of a random process that comes to an end.

* `ChoiceTree` is such a tree. `Table.run_choiceTree`: following the tree of a symbol is expanding it.
* `ChoiceTree.paths` are the answers that lead through a tree, and `ChoiceTree.mem_paths_iff` says
  that these are the runs in range.
* `ChoiceTree.sum_paths`: the probabilities of the paths add up to one, if every question has an
  answer. `Table.WellFormed.answerable` shows that for expansion.
* `Table.Complete` says of choices that they are all that an expansion asks for.
* `Table.expansion_random_process` is the result.
-/

namespace TextGrammar

/-! ## Endless answers -/

/-- An endless sequence gives its entries one after the other, whatever it is asked for. -/
instance : RandomSource (Stream' Nat) where
  pick answers _ := (answers.head, answers.tail)

theorem replies_stream (picks : List Pick) (answers : Stream' Nat) :
    Replies (picks.map Pick.choice ++ₛ answers) picks answers := by
  induction picks with
  | nil => rfl
  | cons asked rest ih => exact ⟨rest.map Pick.choice ++ₛ answers, rfl, ih⟩

/-! ## Trees of choices -/

/-- What may be asked and answered, and what it comes to. -/
inductive ChoiceTree where
  /-- Nothing more is asked. -/
  | stop (result : Except ExpansionError Text)
  /-- An alternative of a symbol is asked for. What follows depends on the choice. -/
  | ask (depth : Nat) (symbol : Symbol) (length : Nat) (next : Nat → ChoiceTree)

namespace ChoiceTree

/-- Follows a tree with the choices of a source. -/
def run {σ : Type} [RandomSource σ] : ChoiceTree → σ → Outcome σ
  | stop result, source => Outcome.done result source
  | ask depth symbol length next, source =>
    let (choice, source) := RandomSource.pick source length
    Outcome.after ⟨depth, symbol, choice, length⟩ ((next choice).run source)

/-- Puts a text in front of every text that a tree leads to. -/
def prepend (text : Text) : ChoiceTree → ChoiceTree
  | stop result => stop (result.map (text ++ ·))
  | ask depth symbol length next => ask depth symbol length fun choice => (next choice).prepend text

/-- A second tree behind every text that a first one leads to. -/
def andThen : ChoiceTree → ChoiceTree → ChoiceTree
  | stop (.error error), _ => stop (.error error)
  | stop (.ok text), second => second.prepend text
  | ask depth symbol length next, second =>
    ask depth symbol length fun choice => (next choice).andThen second

/-- The tree of some segments, with a tree for each symbol that they refer to. -/
def ofSegments (tree : Symbol → ChoiceTree) : List Segment → ChoiceTree
  | [] => stop (.ok [])
  | .literal text :: rest => (stop (.ok text)).andThen (ofSegments tree rest)
  | .ref symbol :: rest => (tree symbol).andThen (ofSegments tree rest)
  | .forced symbol :: rest => (tree symbol).andThen (ofSegments tree rest)

end ChoiceTree

/-- The tree of the expansions of a symbol inside of a stack. -/
def Table.choiceTree (table : Table) (limit left : Nat) (stack : List Symbol) (symbol : Symbol) :
    ChoiceTree :=
  match table.get? symbol with
  | none => .stop (.error (.undefinedSymbol symbol stack))
  | some production =>
    match left with
    | 0 => .stop (.error (.cyclicGrammar symbol limit stack))
    | left + 1 =>
      .ask stack.length symbol production.size fun choice =>
        match production.alternatives[choice]? with
        | none => .stop (.error (.choiceOutOfRange symbol choice production.size))
        | some a => .ofSegments (choiceTree table limit left (stack ++ [symbol])) a.segments

/-! ## Following the tree -/

section Run

variable {σ : Type}

theorem Outcome.after_andThen (step : TraceStep) (run : Outcome σ) (second : σ → Outcome σ) :
    (run.after step).andThen second = (run.andThen second).after step := by
  obtain ⟨result, steps, source⟩ := run
  cases result with
  | error error => rfl
  | ok text => rfl

variable [RandomSource σ]

namespace ChoiceTree

theorem run_prepend (text : Text) (tree : ChoiceTree) (source : σ) :
    (tree.prepend text).run source =
      { tree.run source with result := (tree.run source).result.map (text ++ ·) } := by
  induction tree generalizing source with
  | stop result => rfl
  | ask depth symbol length next ih =>
    rw [prepend, run, run]
    simp only [ih]
    rfl

theorem run_andThen (first second : ChoiceTree) (source : σ) :
    (first.andThen second).run source = (first.run source).andThen second.run := by
  induction first generalizing source with
  | stop result =>
    cases result with
    | error error => rfl
    | ok text => exact run_prepend text second source
  | ask depth symbol length next ih =>
    rw [andThen, run, run]
    simp only [ih]
    exact (Outcome.after_andThen _ _ _).symm

theorem run_ofSegments {tree : Symbol → ChoiceTree} {visit : Symbol → σ → Outcome σ}
    (htree : ∀ symbol source, (tree symbol).run source = visit symbol source)
    (segments : List Segment) (source : σ) :
    (ofSegments tree segments).run source = expandSegments visit segments source := by
  induction segments generalizing source with
  | nil => rfl
  | cons segment rest ih =>
    rw [expandSegments_cons, ← funext ih]
    cases segment with
    | literal text => exact run_andThen ..
    | ref symbol => exact (run_andThen ..).trans (by rw [htree]; rfl)
    | forced symbol => exact (run_andThen ..).trans (by rw [htree]; rfl)

end ChoiceTree

namespace Table

theorem Call.run_choiceTree {table : Table} {limit left : Nat} {stack : List Symbol}
    {symbol : Symbol} {source : σ} {run : Outcome σ}
    (h : table.Call limit left stack symbol source run) :
    (table.choiceTree limit left stack symbol).run source = run := by
  induction h with
  | undefined left hget => simp only [choiceTree, hget, ChoiceTree.run]
  | full hget => simp only [choiceTree, hget, ChoiceTree.run]
  | outOfRange left hget hpick hchoice =>
    simp only [choiceTree, hget, ChoiceTree.run, hpick, hchoice]
  | chosen left hget hpick hchoice _ ih =>
    simp only [choiceTree, hget, ChoiceTree.run, hpick, hchoice, ChoiceTree.run_ofSegments ih]

/-- Following the tree of a symbol is expanding it. -/
theorem run_choiceTree (table : Table) (limit : Nat) (symbol : Symbol) (source : σ) :
    (table.choiceTree limit limit [] symbol).run source = table.expand limit symbol source :=
  (table.call_visit limit limit [] symbol source).run_choiceTree

end Table

end Run

/-! ## Paths through a tree -/

/-- The probability of an answer, if all answers in range are equally likely. -/
def Pick.probability (asked : Pick) : ℚ :=
  1 / asked.length

namespace ChoiceTree

/-- The questions on the ways through a tree, with answers in range. -/
def paths : ChoiceTree → Finset (List Pick)
  | stop _ => {[]}
  | ask _ _ length next =>
    (Finset.range length).biUnion fun choice =>
      (next choice).paths.image fun path => ⟨length, choice⟩ :: path

/-- Every question has an answer in range. -/
def Answerable : ChoiceTree → Prop
  | stop _ => True
  | ask _ _ length next => 0 < length ∧ ∀ choice, (next choice).Answerable

theorem mem_paths_ask {depth : Nat} {symbol : Symbol} {length : Nat} {next : Nat → ChoiceTree}
    {path : List Pick} :
    path ∈ (ask depth symbol length next).paths ↔
      ∃ choice < length, ∃ rest ∈ (next choice).paths, path = ⟨length, choice⟩ :: rest := by
  simp only [paths, Finset.mem_biUnion, Finset.mem_range, Finset.mem_image, eq_comm]

/-- A path is what is asked of a source that gives its answers, if these are in range. -/
theorem mem_paths_iff {tree : ChoiceTree} {path : List Pick} (answers : Stream' Nat) :
    path ∈ tree.paths ↔
      (tree.run (path.map Pick.choice ++ₛ answers)).steps.map TraceStep.pick = path ∧
        ∀ asked ∈ path, asked.choice < asked.length := by
  induction tree generalizing path with
  | stop result =>
    rw [paths, Finset.mem_singleton]
    constructor
    · rintro rfl
      exact ⟨rfl, nofun⟩
    · rintro ⟨hsteps, -⟩
      exact hsteps.symm
  | ask depth symbol length next ih =>
    rw [mem_paths_ask]
    cases path with
    | nil =>
      constructor
      · rintro ⟨_, _, _, _, heq⟩
        cases heq
      · rintro ⟨hsteps, -⟩
        cases hsteps
    | cons asked rest =>
      obtain ⟨length', choice⟩ := asked
      -- The first answer decides in which branch the others are given.
      have hrun : ((ask depth symbol length next).run
          ((⟨length', choice⟩ :: rest).map Pick.choice ++ₛ answers)).steps.map TraceStep.pick =
            ⟨length, choice⟩ :: ((next choice).run
              (rest.map Pick.choice ++ₛ answers)).steps.map TraceStep.pick := rfl
      rw [hrun, List.forall_mem_cons]
      constructor
      · rintro ⟨choice', hchoice, rest', hrest, heq⟩
        cases heq
        obtain ⟨hsteps, hrange⟩ := (ih choice).1 hrest
        exact ⟨by rw [hsteps], hchoice, hrange⟩
      · rintro ⟨heq, hchoice, hrange⟩
        obtain ⟨hfirst, hsteps⟩ := List.cons.inj heq
        have hlength : length = length' := congrArg Pick.length hfirst
        subst hlength
        exact ⟨choice, hchoice, rest, (ih choice).2 ⟨hsteps, hrange⟩, rfl⟩

/-- The probabilities of the paths add up to one: those through each branch do, and the branches of
a question are equally likely. -/
theorem sum_paths {tree : ChoiceTree} (h : tree.Answerable) :
    ∑ path ∈ tree.paths, (path.map Pick.probability).prod = 1 := by
  induction tree with
  | stop result => simp [paths]
  | ask depth symbol length next ih =>
    obtain ⟨hlength, hnext⟩ := h
    have hdisjoint : Set.PairwiseDisjoint (Finset.range length : Set Nat) fun choice =>
        (next choice).paths.image fun path => Pick.mk length choice :: path := by
      intro choice _ choice' _ hne
      rw [Function.onFun, Finset.disjoint_left]
      intro path hpath hpath'
      obtain ⟨rest, -, rfl⟩ := Finset.mem_image.1 hpath
      obtain ⟨rest', -, heq⟩ := Finset.mem_image.1 hpath'
      cases heq
      exact hne rfl
    have hbranch : ∀ choice, ∑ path ∈ (next choice).paths.image
        (fun path => Pick.mk length choice :: path), (path.map Pick.probability).prod =
          1 / length := by
      intro choice
      rw [Finset.sum_image fun _ _ _ _ heq => (List.cons.inj heq).2]
      simp only [List.map_cons, List.prod_cons]
      rw [← Finset.mul_sum, ih choice (hnext choice), mul_one, Pick.probability]
    rw [paths, Finset.sum_biUnion hdisjoint, Finset.sum_congr rfl fun choice _ => hbranch choice,
      Finset.sum_const, Finset.card_range, nsmul_eq_mul]
    exact mul_one_div_cancel (Nat.cast_ne_zero.2 hlength.ne')

theorem Answerable.prepend {tree : ChoiceTree} (h : tree.Answerable) (text : Text) :
    (tree.prepend text).Answerable := by
  induction tree with
  | stop result => exact trivial
  | ask depth symbol length next ih => exact ⟨h.1, fun choice => ih choice (h.2 choice)⟩

theorem Answerable.andThen {first second : ChoiceTree} (hfirst : first.Answerable)
    (hsecond : second.Answerable) : (first.andThen second).Answerable := by
  induction first with
  | stop result =>
    cases result with
    | error error => exact trivial
    | ok text => exact hsecond.prepend text
  | ask depth symbol length next ih => exact ⟨hfirst.1, fun choice => ih choice (hfirst.2 choice)⟩

theorem answerable_ofSegments {tree : Symbol → ChoiceTree}
    (htree : ∀ symbol, (tree symbol).Answerable) (segments : List Segment) :
    (ofSegments tree segments).Answerable := by
  induction segments with
  | nil => exact trivial
  | cons segment rest ih =>
    cases segment with
    | literal text => exact Answerable.andThen trivial ih
    | ref symbol => exact (htree symbol).andThen ih
    | forced symbol => exact (htree symbol).andThen ih

end ChoiceTree

namespace Table

variable {table : Table} {limit : Nat} {symbol : Symbol}

/-- Every question of an expansion has an answer, since no symbol is without alternatives. -/
theorem WellFormed.answerable (h : table.WellFormed) (limit left : Nat) (stack : List Symbol)
    (symbol : Symbol) : (table.choiceTree limit left stack symbol).Answerable := by
  induction left generalizing stack symbol with
  | zero =>
    rw [choiceTree]
    split
    · exact trivial
    · exact trivial
  | succ left ih =>
    rw [choiceTree]
    split
    · exact trivial
    · rename_i production hget
      have hinhabited := h.inhabited symbol (mem_symbols_of_get? hget)
      rw [alternatives_of_get? hget] at hinhabited
      refine ⟨List.length_pos_iff.2 hinhabited, fun choice => ?_⟩
      dsimp only
      split
      · exact trivial
      · exact ChoiceTree.answerable_ofSegments (ih _) _

/-! ## Complete choices -/

/-- What the expansion of a symbol asks a source for, and what it is answered. -/
def questions {σ : Type} [RandomSource σ] (table : Table) (limit : Nat) (symbol : Symbol)
    (source : σ) : List Pick :=
  ((Expander.new table limit).expand symbol (Journal.start source)).2.2.picks

/-- What the expansion of a symbol asks for if it is answered with some choices, and with zeros if it
asks for more. -/
def asked (table : Table) (limit : Nat) (symbol : Symbol) (choices : List Nat) : List Pick :=
  table.questions limit symbol (choices ++ₛ Stream'.const 0)

/-- The expansion of a symbol comes to its end with some choices: these are what it asks for, no
more and no fewer, and all of them are in range. -/
structure Complete (table : Table) (limit : Nat) (symbol : Symbol) (choices : List Nat) :
    Prop where
  choices_eq : (table.asked limit symbol choices).map Pick.choice = choices
  inRange : ∀ asked ∈ table.asked limit symbol choices, asked.choice < asked.length

section Source

variable {σ τ : Type} [RandomSource σ] [RandomSource τ]

theorem questions_eq (table : Table) (limit : Nat) (symbol : Symbol) (source : σ) :
    table.questions limit symbol source =
      (table.expand limit symbol source).steps.map TraceStep.pick :=
  congrArg (fun run => run.source.picks) (table.expand_journal limit symbol source)

/-- A source that gives the answers of an expansion leads to the same expansion. -/
theorem expand_of_replies {source : σ} {other last : τ}
    (h : Replies other (table.questions limit symbol source) last) :
    table.expand limit symbol other =
      ⟨(table.expand limit symbol source).result, (table.expand limit symbol source).steps, last⟩ := by
  rw [questions_eq] at h
  exact (table.call_visit limit limit [] symbol source).replays h

theorem questions_of_replies {source : σ} {other last : τ}
    (h : Replies other (table.questions limit symbol source) last) :
    table.questions limit symbol other = table.questions limit symbol source := by
  rw [questions_eq, expand_of_replies h, questions_eq]

/-- Every source gives the answers to what it is asked. -/
theorem replies_questions (table : Table) (limit : Nat) (symbol : Symbol) (source : σ) :
    Replies source (table.questions limit symbol source)
      (table.expand limit symbol source).source := by
  rw [questions_eq]
  exact (table.call_visit limit limit [] symbol source).answered

/-- The choices that a source makes are all that is asked for. -/
theorem asked_choices (table : Table) (limit : Nat) (symbol : Symbol) (source : σ) :
    table.asked limit symbol ((table.questions limit symbol source).map Pick.choice) =
      table.questions limit symbol source :=
  questions_of_replies (replies_stream (table.questions limit symbol source) _)

end Source

theorem Complete.replies {choices : List Nat} (h : table.Complete limit symbol choices)
    (answers : Stream' Nat) :
    Replies (choices ++ₛ answers) (table.asked limit symbol choices) answers := by
  have hreplies := replies_stream (table.asked limit symbol choices) answers
  rwa [h.choices_eq] at hreplies

theorem Complete.eq_of_isPrefix {choices choices' : List Nat}
    (h : table.Complete limit symbol choices) (h' : table.Complete limit symbol choices')
    (hbefore : choices <+: choices') : choices = choices' := by
  obtain ⟨more, rfl⟩ := hbefore
  have hsame : table.asked limit symbol (choices ++ more) = table.asked limit symbol choices := by
    unfold asked
    rw [Stream'.append_append_stream]
    exact questions_of_replies (h.replies _)
  rw [← h'.choices_eq, hsame, h.choices_eq]

/-- The paths through the tree of a symbol are the questions of its expansions, with answers in
range. -/
theorem mem_paths_choiceTree_iff {path : List Pick} :
    path ∈ (table.choiceTree limit limit [] symbol).paths ↔
      table.asked limit symbol (path.map Pick.choice) = path ∧
        ∀ asked ∈ path, asked.choice < asked.length := by
  rw [ChoiceTree.mem_paths_iff (Stream'.const 0), run_choiceTree, asked, questions_eq]

theorem complete_iff {choices : List Nat} :
    table.Complete limit symbol choices ↔
      ∃ path ∈ (table.choiceTree limit limit [] symbol).paths, path.map Pick.choice = choices := by
  constructor
  · intro h
    refine ⟨table.asked limit symbol choices, ?_, h.choices_eq⟩
    rw [mem_paths_choiceTree_iff, h.choices_eq]
    exact ⟨rfl, h.inRange⟩
  · rintro ⟨path, hpath, rfl⟩
    obtain ⟨hasked, hrange⟩ := mem_paths_choiceTree_iff.1 hpath
    constructor
    · rw [hasked]
    · rw [hasked]
      exact hrange

/-- The probabilities of the complete choices add up to one. -/
theorem WellFormed.exists_sum_complete (h : table.WellFormed) (limit : Nat) (symbol : Symbol) :
    ∃ all : Finset (List Nat), (∀ choices, choices ∈ all ↔ table.Complete limit symbol choices) ∧
      ∑ choices ∈ all, ((table.asked limit symbol choices).map Pick.probability).prod = 1 := by
  have hasked : ∀ path ∈ (table.choiceTree limit limit [] symbol).paths,
      table.asked limit symbol (path.map Pick.choice) = path :=
    fun path hpath => (mem_paths_choiceTree_iff.1 hpath).1
  refine ⟨(table.choiceTree limit limit [] symbol).paths.image (List.map Pick.choice), ?_, ?_⟩
  · intro choices
    rw [complete_iff, Finset.mem_image]
  · -- A path is known by its answers.
    have hinjective : Set.InjOn (List.map Pick.choice)
        ((table.choiceTree limit limit [] symbol).paths : Set (List Pick)) := by
      intro path hpath path' hpath' heq
      rw [← hasked path hpath, heq, hasked path' hpath']
    rw [Finset.sum_image hinjective,
      Finset.sum_congr rfl fun path hpath => by rw [hasked path hpath]]
    exact ChoiceTree.sum_paths (h.answerable limit limit [] symbol)

/-- What a source answers in range is complete, and nothing else that it begins with is. -/
theorem existsUnique_complete {σ : Type} [RandomSource σ] {source : σ}
    (h : ∀ asked ∈ table.questions limit symbol source, asked.choice < asked.length) :
    ∃! choices, table.Complete limit symbol choices ∧
      ∃ last, Replies source (table.asked limit symbol choices) last := by
  have hasked := asked_choices table limit symbol source
  refine ⟨(table.questions limit symbol source).map Pick.choice, ⟨⟨?_, ?_⟩, ?_⟩, ?_⟩
  · rw [hasked]
  · rw [hasked]
    exact h
  · rw [hasked]
    exact ⟨_, replies_questions table limit symbol source⟩
  · rintro choices ⟨hcomplete, last, hreplies⟩
    have hsame : table.questions limit symbol source = table.asked limit symbol choices :=
      questions_of_replies hreplies
    show choices = (table.questions limit symbol source).map Pick.choice
    rw [hsame, hcomplete.choices_eq]

/-! ## The result -/

/-- Expansion is a proper random process. Of the choices that are complete, none are the beginning
of others, and there are finitely many; if all answers to a question are equally likely, their
probabilities add up to one. A source whose answers are in range, as those of every lawful source
are, begins with complete choices in exactly one way, and on these alone the result depends. -/
theorem expansion_random_process (h : table.Reachable) (limit : Nat) (symbol : Symbol) :
    (∀ choices choices', table.Complete limit symbol choices →
      table.Complete limit symbol choices' → choices <+: choices' → choices = choices') ∧
    (∃ all : Finset (List Nat), (∀ choices, choices ∈ all ↔ table.Complete limit symbol choices) ∧
      ∑ choices ∈ all, ((table.asked limit symbol choices).map Pick.probability).prod = 1) ∧
    (∀ (σ : Type) [RandomSource σ] (source : σ),
      (∀ asked ∈ table.questions limit symbol source, asked.choice < asked.length) →
        ∃! choices, table.Complete limit symbol choices ∧
          ∃ last, Replies source (table.asked limit symbol choices) last) ∧
    (∀ (σ : Type) [RandomSource σ] [LawfulRandomSource σ] (source : σ),
      ∀ asked ∈ table.questions limit symbol source, asked.choice < asked.length) ∧
    ∀ choices, table.Complete limit symbol choices → ∃ result, ∀ (σ : Type) [RandomSource σ]
      (source last : σ), Replies source (table.asked limit symbol choices) last →
        ((Expander.new table limit).expand symbol source).1 = result := by
  refine ⟨?_, h.wellFormed.exists_sum_complete limit symbol, ?_, ?_, ?_⟩
  · intro choices choices' hcomplete hcomplete' hbefore
    exact hcomplete.eq_of_isPrefix hcomplete' hbefore
  · intro σ _ source hrange
    exact existsUnique_complete hrange
  · intro σ _ _ source asked hasked
    rw [questions, new_expand] at hasked
    exact (h.wellFormed.lt_of_mem_picks hasked).2
  · intro choices _
    refine ⟨(table.expand limit symbol (choices ++ₛ Stream'.const 0)).result, ?_⟩
    intro σ _ source last hreplies
    rw [new_expand, expand_of_replies hreplies]

/-- Under a limit of three symbols `commaList` may come to its open reference at the third choice,
which happens in one of nine cases. -/
theorem commaList_random_process :
    Table.parse commaSource = .ok commaList ∧ commaList.Complete 3 .start [0, 0] ∧
      commaList.Complete 3 .start [0, 1, 2] ∧
      ((commaList.asked 3 .start [0, 1, 2]).map Pick.probability).prod = 1 / 9 ∧
      ((Expander.new commaList 3).expand .start (Script.ofList [6, 4, 5])).1 = .error goneError ∧
      (∃! choices, commaList.Complete 3 .start choices ∧
        ∃ last, Replies (Script.ofList [6, 4, 5]) (commaList.asked 3 .start choices) last) ∧
      ∃ all : Finset (List Nat), (∀ choices, choices ∈ all ↔ commaList.Complete 3 .start choices) ∧
        ∑ choices ∈ all, ((commaList.asked 3 .start choices).map Pick.probability).prod = 1 := by
  have hparse : Table.parse commaSource = .ok commaList := by decide +kernel
  have hshort : commaList.asked 3 .start [0, 0] = [⟨1, 0⟩, ⟨3, 0⟩] := by rfl
  have hlong : commaList.asked 3 .start [0, 1, 2] = [⟨1, 0⟩, ⟨3, 1⟩, ⟨3, 2⟩] := by rfl
  have hprobability : ((commaList.asked 3 .start [0, 1, 2]).map Pick.probability).prod = 1 / 9 := by
    rw [hlong]
    norm_num [Pick.probability]
  obtain ⟨-, hsum, hunique, hrange, -⟩ := expansion_random_process (.read hparse) 3 .start
  refine ⟨hparse, ⟨?_, ?_⟩, ⟨?_, ?_⟩, hprobability, by decide +kernel,
    hunique Script _ (hrange Script _), hsum⟩
  · rw [hshort]
    rfl
  · rw [hshort]
    decide
  · rw [hlong]
    rfl
  · rw [hlong]
    decide

end Table

end TextGrammar
