import TextGrammar.Proofs.Expansion.Derivations
import TextGrammar.Proofs.Reachable

/-!
# Traces

The steps of an expansion are nested the way its calls are: the step for a symbol comes first, and
those for the references of the chosen alternative follow, one level deeper. A trace of them is
enough to have the same expansion again, and taking it changes nothing.

* `Nested` is the shape of the steps from one level on, and `Called` of those of one call.
* `Table.Call.called`: the steps of a call have it.
* `Table.trace_replays` is the result.
-/

namespace TextGrammar

/-! ## The shape of a trace -/

/-- Steps at one level, each followed by those one level deeper that it leads to. No level reaches
the limit. -/
inductive Nested (limit : Nat) : Nat → List TraceStep → Prop where
  | nil (level : Nat) : Nested limit level []
  | cons {step : TraceStep} {inner rest : List TraceStep} {level : Nat}
      (hdepth : step.depth = level) (hlimit : level < limit)
      (hinner : Nested limit (level + 1) inner) (hrest : Nested limit level rest) :
      Nested limit level (step :: (inner ++ rest))

section Nested

variable {limit level : Nat} {steps : List TraceStep}

theorem Nested.append {steps' : List TraceStep} (h : Nested limit level steps)
    (h' : Nested limit level steps') : Nested limit level (steps ++ steps') := by
  induction h with
  | nil => exact h'
  | @cons step inner rest _ hdepth hlimit hinner _ _ ih =>
    rw [List.cons_append, List.append_assoc]
    exact .cons hdepth hlimit hinner (ih h')

theorem Nested.depth_mem (h : Nested limit level steps) :
    ∀ step ∈ steps, level ≤ step.depth ∧ step.depth < limit := by
  induction h with
  | nil => exact nofun
  | @cons step inner rest level hdepth hlimit _ _ ihinner ihrest =>
    rw [List.forall_mem_cons, List.forall_mem_append]
    refine ⟨⟨hdepth.ge, hdepth.trans_lt hlimit⟩, ?_, ihrest⟩
    intro inside hinside
    exact ⟨Nat.le_of_succ_le (ihinner inside hinside).1, (ihinner inside hinside).2⟩

/-- Behind a step, no step is more than one level deeper than the one before it. -/
theorem Nested.isChain_cons {before : TraceStep} {floor : Nat} (h : Nested limit level steps)
    (hbefore : level ≤ before.depth + 1) (hfloor : floor ≤ level) :
    (before :: steps).IsChain fun step next =>
      floor ≤ next.depth ∧ next.depth ≤ step.depth + 1 := by
  induction h generalizing before with
  | nil => exact .singleton before
  | @cons step inner rest level hdepth hlimit hinner hrest ihinner ihrest =>
    have hstep : step.depth + 1 = level + 1 := congrArg (· + 1) hdepth
    rw [List.isChain_cons_cons, ← List.cons_append, List.isChain_append]
    refine ⟨⟨hfloor.trans hdepth.ge, hdepth.trans_le hbefore⟩, ?_, ?_, ?_⟩
    · exact ihinner hstep.ge (Nat.le_succ_of_le hfloor)
    · exact (ihrest hbefore hfloor).tail
    · -- Whatever step comes last before the rest, it is not above the level of the rest.
      intro last hlast next hnext
      have hlevel : level ≤ last.depth := by
        rcases List.mem_cons.1 (List.mem_of_mem_getLast? hlast) with rfl | hinside
        · exact hdepth.ge
        · exact Nat.le_of_succ_le (hinner.depth_mem last hinside).1
      exact (List.isChain_cons.1 (ihrest (Nat.le_succ_of_le hlevel) hfloor)).1 next hnext

theorem Nested.andThen {σ : Type} {first : Outcome σ} {second : σ → Outcome σ}
    (hfirst : Nested limit level first.steps)
    (hsecond : ∀ source, Nested limit level (second source).steps) :
    Nested limit level (first.andThen second).steps := by
  rcases Outcome.andThen_cases first second with ⟨error, -, heq⟩ | ⟨text, -, heq⟩
  · rw [heq]
    exact hfirst
  · rw [heq]
    exact hfirst.append (hsecond first.source)

/-- The steps of one call: none if it fails at once, and otherwise one for its symbol with the
others below it. -/
inductive Called (limit level : Nat) (symbol : Symbol) : List TraceStep → Prop where
  | nil : Called limit level symbol []
  | cons {choice alternatives : Nat} {inner : List TraceStep} (hlimit : level < limit)
      (hinner : Nested limit (level + 1) inner) :
      Called limit level symbol (⟨level, symbol, choice, alternatives⟩ :: inner)

variable {symbol : Symbol}

theorem Called.nested (h : Called limit level symbol steps) : Nested limit level steps := by
  cases h with
  | nil => exact .nil level
  | @cons choice alternatives inner hlimit hinner =>
    rw [← List.append_nil inner]
    exact .cons rfl hlimit hinner (.nil level)

theorem Called.of_mem_head? (h : Called limit level symbol steps) :
    ∀ first ∈ steps.head?, first.depth = level ∧ first.symbol = symbol := by
  cases h with
  | nil => exact nofun
  | cons =>
    intro first hfirst
    cases hfirst
    exact ⟨rfl, rfl⟩

theorem Called.isChain (h : Called limit level symbol steps) :
    steps.IsChain fun step next => level + 1 ≤ next.depth ∧ next.depth ≤ step.depth + 1 := by
  cases h with
  | nil => exact .nil
  | cons _ hinner => exact hinner.isChain_cons (Nat.le_refl _) (Nat.le_refl _)

end Nested

namespace Table

variable {σ : Type} [RandomSource σ]

theorem Call.called {table : Table} {limit left : Nat} {stack : List Symbol} {symbol : Symbol}
    {source : σ} {run : Outcome σ} (h : table.Call limit left stack symbol source run) :
    Called (stack.length + left) stack.length symbol run.steps := by
  induction h with
  | undefined => exact .nil
  | full => exact .nil
  | outOfRange left => exact .cons (by omega) (.nil _)
  | @chosen stack symbol _ next _ _ a left _ _ _ _ ih =>
    have hvisit : ∀ (symbol' : Symbol) (source' : σ),
        Nested (stack.length + (left + 1)) (stack.length + 1)
          (table.visit limit left (stack ++ [symbol]) symbol' source').steps := by
      intro symbol' source'
      have hcalled := ih symbol' source'
      rw [List.length_append, List.length_singleton, Nat.add_right_comm, Nat.add_assoc]
        at hcalled
      exact hcalled.nested
    have hinner := expandSegments_induction (P := fun _ run => Nested _ _ run.steps)
      (fun _ _ => .nil _) Nested.andThen hvisit a.segments next
    exact .cons (by omega) hinner

theorem called_expand (table : Table) (limit : Nat) (symbol : Symbol) (source : σ) :
    Called limit 0 symbol (table.expand limit symbol source).steps := by
  have h := (table.call_visit limit limit [] symbol source).called
  rwa [List.length_nil, Nat.zero_add] at h

/-! ## Expanders -/

theorem new_expand (table : Table) (limit : Nat) (symbol : Symbol) (source : σ) :
    (Expander.new table limit).expand symbol source =
      ((table.expand limit symbol source).result, Expander.new table limit,
        (table.expand limit symbol source).source) :=
  rfl

theorem traced_expand (table : Table) (limit : Nat) (symbol : Symbol) (source : σ) :
    (Expander.new table limit).traced.expand symbol source =
      ((table.expand limit symbol source).result,
        ⟨table, limit, some (table.expand limit symbol source).steps⟩,
        (table.expand limit symbol source).source) :=
  rfl

/-- Any source with the answers that a trace shows leads to the same result and the same trace. -/
theorem traced_expand_of_replies {τ : Type} [RandomSource τ] (table : Table) (limit : Nat)
    (symbol : Symbol) (source : σ) {other last : τ}
    (h : Replies other ((table.expand limit symbol source).steps.map TraceStep.pick) last) :
    (Expander.new table limit).traced.expand symbol other =
      ((table.expand limit symbol source).result,
        ⟨table, limit, some (table.expand limit symbol source).steps⟩, last) := by
  have hsame : table.expand limit symbol other = ⟨_, _, _⟩ :=
    (table.call_visit limit limit [] symbol source).replays h
  rw [traced_expand, hsame]
  rfl

end Table

/-- Taking a trace along does not change what a grammar generates, nor the source behind it. -/
theorem Grammar.generate_eq_generateTraced {σ : Type} [RandomSource σ] (grammar : Grammar)
    (source : σ) :
    grammar.generate source =
      ((grammar.generateTraced source).1.map Prod.fst, (grammar.generateTraced source).2) := by
  simp only [Grammar.generate, Grammar.generateFrom, Grammar.expandRaw, Grammar.generateTraced,
    Table.new_expand, Table.traced_expand]
  cases (grammar.table.expand grammar.limits.maxExpansionDepth grammar.start source).result with
  | error error => rfl
  | ok raw => rfl

/-! ## The result -/

namespace Table

/-- The trace of an expansion shows every question to the source, in order, with an answer in range.
It begins with the symbol itself; everything else is below that, never more than one level deeper
than what is before it, and the limit is not reached. Any source that gives the same answers leads
to the same result and the same trace, also if the expansion fails, and a script of the choices is
such a source. Without a trace, the result, the questions and the source behind them are the same,
and so it is for what a grammar generates. -/
theorem trace_replays {σ : Type} [RandomSource σ] [LawfulRandomSource σ] {table : Table}
    (h : table.Reachable) {limit : Nat} {symbol : Symbol} {source last : σ}
    {result : Except ExpansionError Text} {expander : Expander}
    (hrun : (Expander.new table limit).traced.expand symbol source = (result, expander, last))
    {trace : List TraceStep} (htrace : expander.takeTrace.1 = trace) :
    (Expander.new table limit).traced.expand symbol (Journal.start source) =
        (result, expander, ⟨last, trace.map TraceStep.pick⟩) ∧
      (∀ step ∈ trace, step.choice < step.alternatives ∧ step.depth < limit) ∧
      (∀ first ∈ trace.head?, first.depth = 0 ∧ first.symbol = symbol) ∧
      (trace.IsChain fun step next => 1 ≤ next.depth ∧ next.depth ≤ step.depth + 1) ∧
      (∀ (τ : Type) [RandomSource τ] (other last' : τ),
        Replies other (trace.map TraceStep.pick) last' →
          (Expander.new table limit).traced.expand symbol other = (result, expander, last')) ∧
      (∃ script, (Expander.new table limit).traced.expand symbol
        (Script.ofList (trace.map TraceStep.choice)) = (result, expander, script)) ∧
      (Expander.new table limit).expand symbol (Journal.start source) =
        (result, Expander.new table limit, ⟨last, trace.map TraceStep.pick⟩) ∧
      ∀ (grammar : Grammar) (source : σ), grammar.generate source =
        ((grammar.generateTraced source).1.map Prod.fst, (grammar.generateTraced source).2) := by
  rw [traced_expand, Prod.mk.injEq, Prod.mk.injEq] at hrun
  obtain ⟨rfl, rfl, rfl⟩ := hrun
  obtain rfl : (table.expand limit symbol source).steps = trace := htrace
  have hjournal := table.expand_journal limit symbol source
  have hrange := h.wellFormed.inRange (table.call_visit limit limit [] symbol source)
  have hcalled := table.called_expand limit symbol source
  refine ⟨?_, ?_, hcalled.of_mem_head?, hcalled.isChain, ?_, ?_, ?_, ?_⟩
  · rw [traced_expand, hjournal]
  · intro step hstep
    exact ⟨hrange.steps step hstep, (hcalled.nested.depth_mem step hstep).2⟩
  · intro τ _ other last' hreplies
    exact table.traced_expand_of_replies limit symbol source hreplies
  · have hchoices : ∀ asked ∈ (table.expand limit symbol source).steps.map TraceStep.pick,
        asked.choice < asked.length := by
      intro asked hasked
      obtain ⟨step, hstep, rfl⟩ := List.mem_map.1 hasked
      exact hrange.steps step hstep
    have hreplies := Script.replies_resume hchoices [] []
    rw [List.map_map, List.append_nil] at hreplies
    exact ⟨_, table.traced_expand_of_replies limit symbol source hreplies⟩
  · rw [new_expand, hjournal]
  · exact Grammar.generate_eq_generateTraced

/-- The source of `commaList`. -/
def commaSource : Text :=
  "$s=>$list.;$list=a|b,$list|$gone".toList

/-- The choices that lead to the reference that is left open. -/
def goneTrace : List TraceStep :=
  let list := Symbol.ofIdentifier "list".toList
  [⟨0, .start, 0, 1⟩, ⟨1, list, 1, 3⟩, ⟨2, list, 2, 3⟩]

def goneError : ExpansionError :=
  let list := Symbol.ofIdentifier "list".toList
  .undefinedSymbol (.ofIdentifier "gone".toList) [.start, list, list]

theorem goneTrace_replays :
    Table.parse commaSource = .ok commaList ∧
      (Expander.new commaList 4).traced.expand .start (Script.ofList [0, 1, 2]) =
        (.error goneError, ⟨commaList, 4, some goneTrace⟩, ⟨#[0, 1, 2], 3⟩) ∧
      (Expander.new commaList 4).traced.expand .start (Journal.start (Script.ofList [0, 1, 2])) =
        (.error goneError, ⟨commaList, 4, some goneTrace⟩,
          ⟨⟨#[0, 1, 2], 3⟩, [⟨1, 0⟩, ⟨3, 1⟩, ⟨3, 2⟩]⟩) ∧
      (∀ step ∈ goneTrace, step.choice < step.alternatives ∧ step.depth < 4) ∧
      (goneTrace.IsChain fun step next => 1 ≤ next.depth ∧ next.depth ≤ step.depth + 1) ∧
      Replies (Script.ofList [6, 4, 5]) (goneTrace.map TraceStep.pick) ⟨#[6, 4, 5], 3⟩ ∧
      (Expander.new commaList 4).traced.expand .start (Script.ofList [6, 4, 5]) =
        (.error goneError, ⟨commaList, 4, some goneTrace⟩, ⟨#[6, 4, 5], 3⟩) := by
  have hparse : Table.parse commaSource = .ok commaList := by decide +kernel
  have hrun : (Expander.new commaList 4).traced.expand .start (Script.ofList [0, 1, 2]) =
      (.error goneError, ⟨commaList, 4, some goneTrace⟩, ⟨#[0, 1, 2], 3⟩) := by decide +kernel
  have hreplies : Replies (Script.ofList [6, 4, 5]) (goneTrace.map TraceStep.pick)
      ⟨#[6, 4, 5], 3⟩ := ⟨_, rfl, _, rfl, _, rfl, rfl⟩
  obtain ⟨hjournal, hsteps, -, hchain, hother, -⟩ := trace_replays (.read hparse) hrun rfl
  exact ⟨hparse, hrun, hjournal, hsteps, hchain, hreplies, hother Script _ _ hreplies⟩

end Table

end TextGrammar
