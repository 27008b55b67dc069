import Mathlib.Data.List.Duplicate
import Mathlib.Data.List.Perm.Subperm
import Mathlib.Logic.Relation
import TextGrammar.Proofs.Expansion.SharedStack
import TextGrammar.Proofs.Expansion.Traces

/-!
# Reports of failures

An expansion stops at the first symbol that it cannot expand, and reports the symbols around it.

* `Table.attempt` is the derivation that a source chooses, with what cannot be expanded left open,
  and `Attempt.failures` lists its failures from left to right.
* `Follows` compares a run with such a derivation; `Table.Call.follows` says that a run stops at the
  first failure.
* `Table.Genuine` is what a report says about its table. `Table.WellFormed.genuine_of_mem_failures`
  shows it for all failures of a derivation at once.
* `Table.Reaches.exists_twice`: a path longer than its table comes back to a symbol.
* `Table.failure_reports_genuine` is the result.
-/

namespace TextGrammar

/-! ## Derivations with open ends -/

/-- A derivation in which some symbols could not be expanded. -/
inductive Attempt where
  /-- The symbol is not defined. -/
  | undefined (symbol : Symbol)
  /-- As many symbols are around this one as the limit allows. -/
  | full (symbol : Symbol)
  /-- The symbol does not have the chosen alternative. -/
  | outOfRange (symbol : Symbol) (choice alternatives : Nat)
  /-- An alternative is chosen, and there is a derivation for each of its references. -/
  | node (symbol : Symbol) (choice alternatives : Nat) (children : List Attempt)

namespace Attempt

/-- The failures of a derivation inside of a stack, from left to right. -/
def failures (limit : Nat) : Attempt → List Symbol → List ExpansionError
  | undefined symbol, stack => [.undefinedSymbol symbol stack]
  | full symbol, stack => [.cyclicGrammar symbol limit stack]
  | outOfRange symbol choice alternatives, _ => [.choiceOutOfRange symbol choice alternatives]
  | node symbol _ _ children, stack =>
    children.flatMap fun child => child.failures limit (stack ++ [symbol])

/-- The choices of a derivation at some depth, each before those below it, from left to right. -/
def steps : Attempt → Nat → List TraceStep
  | undefined _, _ => []
  | full _, _ => []
  | outOfRange symbol choice alternatives, depth => [⟨depth, symbol, choice, alternatives⟩]
  | node symbol choice alternatives children, depth =>
    ⟨depth, symbol, choice, alternatives⟩ :: children.flatMap fun child => child.steps (depth + 1)

end Attempt

variable {σ : Type}

/-- Derivations for some symbols in a row. -/
def attemptAll (attempt : Symbol → σ → Attempt × σ) : List Symbol → σ → List Attempt × σ
  | [], source => ([], source)
  | symbol :: rest, source =>
    let (child, source) := attempt symbol source
    let (children, source) := attemptAll attempt rest source
    (child :: children, source)

/-- The derivation that a source chooses for a symbol, where the stack may grow by `left` symbols.
It goes on behind what cannot be expanded. -/
def Table.attempt [RandomSource σ] (table : Table) : Nat → Symbol → σ → Attempt × σ
  | left, symbol, source =>
    match table.get? symbol with
    | none => (.undefined symbol, source)
    | some production =>
      match left with
      | 0 => (.full symbol, source)
      | left + 1 =>
        let (choice, source) := RandomSource.pick source production.size
        match production.alternatives[choice]? with
        | none => (.outOfRange symbol choice production.size, source)
        | some a =>
          let (children, source) := attemptAll (attempt table left) a.references source
          (.node symbol choice production.size children, source)

/-! ## Runs stop at the first failure -/

/-- A run gives a text if there are no failures, and otherwise reports the first one. The steps are
those given, or the first of them. -/
inductive Follows : Outcome σ → List ExpansionError → List TraceStep → σ → Prop where
  | ok (text : Text) (steps : List TraceStep) (last : σ) :
      Follows ⟨.ok text, steps, last⟩ [] steps last
  | error (error : ExpansionError) (others : List ExpansionError) (steps more : List TraceStep)
      (source last : σ) :
      Follows ⟨.error error, steps, source⟩ (error :: others) (steps ++ more) last

section Follows

variable {run : Outcome σ} {failures : List ExpansionError} {steps : List TraceStep} {last : σ}

theorem Follows.head? (h : Follows run failures steps last) (error : ExpansionError) :
    run.result = .error error ↔ failures.head? = some error := by
  cases h with
  | ok => simp
  | error => simp

theorem Follows.isPrefix_steps (h : Follows run failures steps last) : run.steps <+: steps := by
  cases h with
  | ok => exact List.prefix_refl _
  | error => exact List.prefix_append ..

theorem Follows.after (h : Follows run failures steps last) (step : TraceStep) :
    Follows (run.after step) failures (step :: steps) last := by
  cases h with
  | ok text steps last => exact .ok text (step :: steps) last
  | error error others steps more source last =>
    exact .error error others (step :: steps) more source last

theorem Follows.andThen {failures' : List ExpansionError} {steps' : List TraceStep} {last' : σ}
    {second : σ → Outcome σ} (h : Follows run failures steps last)
    (hsecond : Follows (second last) failures' steps' last') :
    Follows (run.andThen second) (failures ++ failures') (steps ++ steps') last' := by
  cases h with
  | error error others steps more source =>
    rw [List.append_assoc]
    exact .error error (others ++ failures') steps (more ++ steps') source last'
  | ok text steps last =>
    simp only [Outcome.andThen]
    generalize second last = next at hsecond ⊢
    cases hsecond with
    | ok after steps' last' => exact .ok (text ++ after) (steps ++ steps') last'
    | error error others steps' more source =>
      rw [← List.append_assoc]
      exact .error error others (steps ++ steps') more source last'

theorem follows_segments {visit : Symbol → σ → Outcome σ} {attempt : Symbol → σ → Attempt × σ}
    {limit : Nat} {stack : List Symbol} {depth : Nat}
    (hvisit : ∀ symbol source, Follows (visit symbol source)
      ((attempt symbol source).1.failures limit stack) ((attempt symbol source).1.steps depth)
      (attempt symbol source).2)
    (segments : List Segment) (source : σ) :
    Follows (expandSegments visit segments source)
      ((attemptAll attempt (segments.filterMap Segment.reference?) source).1.flatMap
        fun child => child.failures limit stack)
      ((attemptAll attempt (segments.filterMap Segment.reference?) source).1.flatMap
        fun child => child.steps depth)
      (attemptAll attempt (segments.filterMap Segment.reference?) source).2 := by
  induction segments generalizing source with
  | nil => exact .ok [] [] source
  | cons segment rest ih =>
    rw [expandSegments_cons]
    cases segment with
    | literal text => exact (Follows.ok text [] source).andThen (ih source)
    | ref symbol => exact (hvisit symbol source).andThen (ih _)
    | forced symbol => exact (hvisit symbol source).andThen (ih _)

end Follows

namespace Table

/-- A run stops at the first failure of the derivation that its source chooses. -/
theorem Call.follows [RandomSource σ] {table : Table} {limit left : Nat} {stack : List Symbol}
    {symbol : Symbol} {source : σ} {run : Outcome σ}
    (h : table.Call limit left stack symbol source run) :
    Follows run ((table.attempt left symbol source).1.failures limit stack)
      ((table.attempt left symbol source).1.steps stack.length)
      (table.attempt left symbol source).2 := by
  induction h with
  | @undefined stack symbol source left hget =>
    simp only [attempt, hget, Attempt.failures, Attempt.steps]
    exact .error _ [] [] [] source source
  | @full stack symbol source _ hget =>
    simp only [attempt, hget, Attempt.failures, Attempt.steps]
    exact .error _ [] [] [] source source
  | outOfRange left hget hpick hchoice =>
    simp only [attempt, hget, hpick, hchoice, Attempt.failures, Attempt.steps]
    exact .error _ [] [_] [] _ _
  | @chosen stack symbol _ next production choice a left hget hpick hchoice _ ih =>
    simp only [attempt, hget, hpick, hchoice, Attempt.failures, Attempt.steps]
    have hvisit : ∀ (symbol' : Symbol) (source' : σ), Follows
        (table.visit limit left (stack ++ [symbol]) symbol' source')
        ((table.attempt left symbol' source').1.failures limit (stack ++ [symbol]))
        ((table.attempt left symbol' source').1.steps (stack.length + 1))
        (table.attempt left symbol' source').2 := by
      intro symbol' source'
      have hcall := ih symbol' source'
      rwa [List.length_append, List.length_singleton] at hcall
    have hinner := follows_segments hvisit a.segments next
    exact hinner.after ⟨stack.length, symbol, choice, production.size⟩

/-! ## Genuine reports -/

variable {table : Table} {first symbol target last : Symbol} {path stack : List Symbol}

/-- An alternative of a symbol refers to another symbol. -/
def RefersTo (table : Table) (symbol target : Symbol) : Prop :=
  ∃ a ∈ table.alternatives symbol, target ∈ a.references

/-- References lead from a symbol along a path to another symbol. -/
structure Reaches (table : Table) (first : Symbol) (path : List Symbol) (last : Symbol) : Prop where
  /-- The path begins with the first symbol. An empty one leads to this symbol itself. -/
  first : (path ++ [last]).head? = some first
  /-- Every symbol of the path is defined. -/
  defined : ∀ entry ∈ path, entry ∈ table.symbols
  /-- Each symbol of the path refers to the next one, and the last of them to where it leads. -/
  refers : (path ++ [last]).IsChain table.RefersTo

/-- What a report of an expansion says about the table is true. -/
inductive Genuine (table : Table) (limit : Nat) (first : Symbol) : ExpansionError → Prop where
  | undefinedSymbol {symbol : Symbol} {stack : List Symbol} (hundefined : symbol ∉ table.symbols)
      (hreaches : table.Reaches first stack symbol) (hlength : stack.length ≤ limit) :
      Genuine table limit first (.undefinedSymbol symbol stack)
  | cyclicGrammar {symbol : Symbol} {stack : List Symbol} (hdefined : symbol ∈ table.symbols)
      (hreaches : table.Reaches first stack symbol) (hlength : stack.length = limit) :
      Genuine table limit first (.cyclicGrammar symbol limit stack)

theorem Reaches.self (table : Table) (symbol : Symbol) : table.Reaches symbol [] symbol :=
  ⟨rfl, nofun, .singleton symbol⟩

/-- A path goes on along the references of the symbol it leads to. -/
theorem Reaches.step (h : table.Reaches first path symbol) (hdefined : symbol ∈ table.symbols)
    (hrefers : table.RefersTo symbol target) :
    table.Reaches first (path ++ [symbol]) target := by
  refine ⟨?_, ?_, ?_⟩
  · rw [List.head?_append, h.first]
    rfl
  · exact List.forall_mem_append.2 ⟨h.defined, List.forall_mem_singleton.2 hdefined⟩
  · refine List.isChain_append.2 ⟨h.refers, .singleton target, ?_⟩
    intro before hbefore after hafter
    rw [List.getLast?_concat] at hbefore
    cases hbefore
    cases hafter
    exact hrefers

theorem exists_of_mem_attemptAll {attempt : Symbol → σ → Attempt × σ} {symbols : List Symbol}
    {source : σ} {child : Attempt} (h : child ∈ (attemptAll attempt symbols source).1) :
    ∃ symbol ∈ symbols, ∃ next, child = (attempt symbol next).1 := by
  induction symbols generalizing source with
  | nil => cases h
  | cons symbol rest ih =>
    rcases List.mem_cons.1 h with rfl | hrest
    · exact ⟨symbol, List.mem_cons_self, source, rfl⟩
    · obtain ⟨other, hother, next, hchild⟩ := ih hrest
      exact ⟨other, List.mem_cons_of_mem _ hother, next, hchild⟩

/-- All failures of a derivation are reported as they are, not only the first one. -/
theorem WellFormed.genuine_of_mem_failures [RandomSource σ] [LawfulRandomSource σ]
    (h : table.WellFormed) {limit left : Nat} {source : σ} {run : Outcome σ}
    (hcall : table.Call limit left stack symbol source run)
    (hreaches : table.Reaches first stack symbol) (hleft : stack.length + left = limit)
    {error : ExpansionError}
    (herror : error ∈ (table.attempt left symbol source).1.failures limit stack) :
    table.Genuine limit first error := by
  induction hcall with
  | undefined left hget =>
    simp only [attempt, hget, Attempt.failures, List.mem_singleton] at herror
    subst herror
    exact .undefinedSymbol (not_mem_symbols_of_get? hget) hreaches (by omega)
  | full hget =>
    simp only [attempt, hget, Attempt.failures, List.mem_singleton] at herror
    subst herror
    exact .cyclicGrammar (mem_symbols_of_get? hget) hreaches hleft
  | outOfRange left hget hpick hchoice =>
    exact absurd (h.lt_of_pick hget hpick) (Nat.not_lt.2 (List.getElem?_eq_none_iff.1 hchoice))
  | @chosen stack symbol _ next production choice a left hget hpick hchoice _ ih =>
    simp only [attempt, hget, hpick, hchoice, Attempt.failures, List.mem_flatMap] at herror
    -- The failure is one below a reference, and the path to it goes through this symbol.
    obtain ⟨child, hchild, herror⟩ := herror
    obtain ⟨target, htarget, next', rfl⟩ := exists_of_mem_attemptAll hchild
    have hrefers : table.RefersTo symbol target := by
      refine ⟨a, ?_, htarget⟩
      rw [alternatives_of_get? hget]
      exact List.mem_of_getElem? hchoice
    refine ih target next' (hreaches.step (mem_symbols_of_get? hget) hrefers) ?_ herror
    rw [List.length_append, List.length_singleton]
    omega

/-! ## Paths longer than the table -/

/-- A path of defined symbols that is longer than the table holds a symbol twice. -/
theorem Reaches.exists_twice (h : table.Reaches first path last) (hdefined : last ∈ table.symbols)
    (hlength : table.symbols.length ≤ path.length) :
    ∃ twice, 2 ≤ (path ++ [last]).count twice := by
  have hsubset : path ++ [last] ⊆ table.symbols :=
    List.append_subset.2 ⟨h.defined, List.cons_subset.2 ⟨hdefined, List.nil_subset _⟩⟩
  have hnot : ¬(path ++ [last]).Nodup := by
    intro hnodup
    have hle := (hnodup.subperm hsubset).length_le
    rw [List.length_append, List.length_singleton] at hle
    omega
  obtain ⟨twice, htwice⟩ := List.exists_duplicate_iff_not_nodup.2 hnot
  exact ⟨twice, List.duplicate_iff_two_le_count.1 htwice⟩

/-- From a symbol that is twice on a path, references lead back to it. -/
theorem Reaches.transGen_of_twice (h : table.Reaches first path last)
    (htwice : 2 ≤ (path ++ [last]).count symbol) :
    Relation.TransGen table.RefersTo symbol symbol := by
  have hpairwise : (path ++ [last]).Pairwise (Relation.TransGen table.RefersTo) :=
    (h.refers.imp fun _ _ => Relation.TransGen.single).pairwise
  have hsublist : [symbol, symbol].Sublist (path ++ [last]) :=
    List.duplicate_iff_sublist.1 (List.duplicate_iff_two_le_count.2 htwice)
  exact List.pairwise_pair.1 (hpairwise.sublist hsublist)

/-! ## The result -/

/-- A report of an expansion is true of its table, and it is that of the first failure, from left to
right, of the derivation that the source chooses; the trace shows the choices of this derivation up
to there. If the table has no more symbols than the limit allows on the stack, a report of a cyclic
grammar shows a symbol twice, so it does not come up where references do not lead back. With one
stack for all calls, which every call has to restore, the expansion ends the same way. -/
theorem failure_reports_genuine {σ : Type} [RandomSource σ] [LawfulRandomSource σ]
    (expander : Expander) (h : expander.table.Reachable) (first : Symbol) (source : σ) :
    (∀ error, (expander.expand first source).1 = .error error →
        expander.table.Genuine expander.maxDepth first error) ∧
      (∀ error, (expander.expand first source).1 = .error error ↔
        ((expander.table.attempt expander.maxDepth first source).1.failures expander.maxDepth
          []).head? = some error) ∧
      (expander.traced.expand first source).2.1.takeTrace.1 <+:
        (expander.table.attempt expander.maxDepth first source).1.steps 0 ∧
      (expander.table.symbols.length ≤ expander.maxDepth → ∀ symbol depth stack,
        (expander.expand first source).1 = .error (.cyclicGrammar symbol depth stack) →
          ∃ twice, 2 ≤ (stack ++ [symbol]).count twice) ∧
      (expander.table.symbols.length ≤ expander.maxDepth →
        (∀ symbol, ¬Relation.TransGen expander.table.RefersTo symbol symbol) →
          ∀ symbol depth stack,
            (expander.expand first source).1 ≠ .error (.cyclicGrammar symbol depth stack)) ∧
      ∀ stack text steps,
        (expander.table.expandShared expander.maxDepth first ⟨stack, text, steps, source⟩).1 =
          (expander.expand first source).1.map fun _ => () := by
  have hcall := expander.table.call_visit expander.maxDepth expander.maxDepth [] first source
  have hfollows := hcall.follows
  have hgenuine : ∀ error, (expander.expand first source).1 = .error error →
      expander.table.Genuine expander.maxDepth first error := by
    intro error herror
    refine h.wellFormed.genuine_of_mem_failures hcall (.self _ first) (Nat.zero_add _) ?_
    exact List.mem_of_mem_head? ((hfollows.head? error).1 herror)
  have htwice : expander.table.symbols.length ≤ expander.maxDepth → ∀ symbol depth stack,
      (expander.expand first source).1 = .error (.cyclicGrammar symbol depth stack) →
        expander.table.Reaches first stack symbol ∧
          ∃ twice, 2 ≤ (stack ++ [symbol]).count twice := by
    intro hsize symbol depth stack herror
    cases hgenuine _ herror with
    | cyclicGrammar hdefined hreaches hlength =>
      exact ⟨hreaches, hreaches.exists_twice hdefined (hsize.trans hlength.ge)⟩
  refine ⟨hgenuine, hfollows.head?, hfollows.isPrefix_steps, ?_, ?_, ?_⟩
  · intro hsize symbol depth stack herror
    exact (htwice hsize symbol depth stack herror).2
  · intro hsize hacyclic symbol depth stack herror
    obtain ⟨hreaches, twice, hcount⟩ := htwice hsize symbol depth stack herror
    exact hacyclic twice (hreaches.transGen_of_twice hcount)
  · intro stack text steps
    obtain ⟨stack', text', heq, -⟩ :=
      expander.table.expandShared_eq expander.maxDepth first ⟨stack, text, steps, source⟩
    rw [heq]
    rfl

/-- The report where `commaList` goes round once more than the limit allows. -/
def roundError : ExpansionError :=
  let list := Symbol.ofIdentifier "list".toList
  .cyclicGrammar list 2 [.start, list]

theorem roundError_genuine :
    Table.parse commaSource = .ok commaList ∧
      ((Expander.new commaList 2).expand .start (Script.ofList [0, 1])).1 = .error roundError ∧
      commaList.Genuine 2 .start roundError ∧
      ((commaList.attempt 2 .start (Script.ofList [0, 1])).1.failures 2 []).head? =
        some roundError ∧
      commaList.symbols.length ≤ 2 ∧
      let list := Symbol.ofIdentifier "list".toList
      ∃ twice, 2 ≤ ([.start, list] ++ [list]).count twice := by
  have hparse : Table.parse commaSource = .ok commaList := by decide +kernel
  have hrun : ((Expander.new commaList 2).expand .start (Script.ofList [0, 1])).1 =
      .error roundError := by decide +kernel
  obtain ⟨hgenuine, hfirst, -, htwice, -⟩ := failure_reports_genuine (Expander.new commaList 2)
    (.read hparse) .start (Script.ofList [0, 1])
  exact ⟨hparse, hrun, hgenuine _ hrun, (hfirst _).1 hrun, by decide,
    htwice (by decide) _ _ _ hrun⟩

end Table

end TextGrammar
