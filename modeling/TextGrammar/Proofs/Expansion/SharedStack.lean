import TextGrammar.Proofs.Expansion.Replies

/-!
# One stack for all calls

`Table.visit` hands each call the stack of the symbols around it. An expansion can as well keep one
stack for all of its calls: a call puts its symbol on top, takes it away again when all its segments
are expanded, and leaves everything as it is when one of them fails.

* `Table.visitShared` is that expansion, with the text, the steps and the source shared as well.
* `EndsAs` compares a call on shared state with a run. A call that succeeds has restored the stack,
  however many calls it made.
* `Table.expandShared_eq`: the result, the steps and the source are those of `Table.expand`, also if
  an earlier expansion has left something on the stack.
-/

namespace TextGrammar

/-- What the calls of an expansion share. -/
structure SharedState (σ : Type) where
  /-- The symbols that are being expanded, outermost first. -/
  stack : List Symbol
  /-- The text so far. -/
  text : Text
  /-- The steps so far. -/
  steps : List TraceStep
  source : σ

namespace SharedState

variable {σ : Type}

def write (shared : SharedState σ) (text : Text) : SharedState σ :=
  { shared with text := shared.text ++ text }

def record (shared : SharedState σ) (step : TraceStep) (source : σ) : SharedState σ :=
  { shared with steps := shared.steps ++ [step], source }

def push (shared : SharedState σ) (symbol : Symbol) : SharedState σ :=
  { shared with stack := shared.stack ++ [symbol] }

def pop (shared : SharedState σ) : SharedState σ :=
  { shared with stack := shared.stack.dropLast }

end SharedState

/-- How a call ends, and the shared state behind it. -/
abbrev Ended (σ : Type) := Except ExpansionError Unit × SharedState σ

variable {σ : Type}

/-- Goes on with a second call if the first one succeeds. -/
def Ended.andThen (first : Ended σ) (second : SharedState σ → Ended σ) : Ended σ :=
  match first with
  | (.ok (), shared) => second shared
  | (.error error, shared) => (.error error, shared)

/-- Expands segments from left to right on shared state. -/
def segmentsShared (visit : Symbol → SharedState σ → Ended σ) :
    List Segment → SharedState σ → Ended σ
  | [], shared => (.ok (), shared)
  | .literal text :: rest, shared => segmentsShared visit rest (shared.write text)
  | .ref symbol :: rest, shared => (visit symbol shared).andThen (segmentsShared visit rest)
  | .forced symbol :: rest, shared => (visit symbol shared).andThen (segmentsShared visit rest)

namespace Table

variable [RandomSource σ]

/-- Expands a symbol on shared state. It is the length of the stack that the limit is compared
with; `left`, by how much the stack may still grow, is there for the recursion only. -/
def visitShared (table : Table) (limit : Nat) : Nat → Symbol → SharedState σ → Ended σ
  | left, symbol, shared =>
    match table.get? symbol with
    | none => (.error (.undefinedSymbol symbol shared.stack), shared)
    | some production =>
      if limit ≤ shared.stack.length then
        (.error (.cyclicGrammar symbol limit shared.stack), shared)
      else
        match left with
        | 0 => (.error (.cyclicGrammar symbol limit shared.stack), shared)
        | left + 1 =>
          let (choice, source) := RandomSource.pick shared.source production.size
          let shared := shared.record ⟨shared.stack.length, symbol, choice, production.size⟩ source
          match production.alternatives[choice]? with
          | none => (.error (.choiceOutOfRange symbol choice production.size), shared)
          | some a =>
            (segmentsShared (visitShared table limit left) a.segments (shared.push symbol)).andThen
              fun shared => (.ok (), shared.pop)

/-- Expands a symbol on shared state, on an empty stack and to a text of its own. -/
def expandShared (table : Table) (limit : Nat) (symbol : Symbol) (shared : SharedState σ) :
    Ended σ :=
  table.visitShared limit limit symbol { shared with stack := [], text := [] }

end Table

/-- A call on shared state ends the way a run does. If it succeeds, the stack is what it was. -/
inductive EndsAs (shared : SharedState σ) : Outcome σ → Ended σ → Prop where
  | ok (text : Text) (steps : List TraceStep) (source : σ) :
      EndsAs shared ⟨.ok text, steps, source⟩
        (.ok (), ⟨shared.stack, shared.text ++ text, shared.steps ++ steps, source⟩)
  | error (error : ExpansionError) (stack : List Symbol) (text : Text) (steps : List TraceStep)
      (source : σ) :
      EndsAs shared ⟨.error error, steps, source⟩
        (.error error, ⟨stack, text, shared.steps ++ steps, source⟩)

section EndsAs

variable {shared : SharedState σ} {run : Outcome σ} {ended : Ended σ}

theorem EndsAs.fails (error : ExpansionError) (shared : SharedState σ) :
    EndsAs shared (.done (.error error) shared.source) (.error error, shared) := by
  have herror : EndsAs shared _ _ := .error error shared.stack shared.text [] shared.source
  rwa [List.append_nil] at herror

/-- Two calls in a row end the way two runs do. The second call finds the stack that the first one
found. -/
theorem EndsAs.andThen {second : σ → Outcome σ} {secondShared : SharedState σ → Ended σ}
    (h : EndsAs shared run ended)
    (hsecond : ∀ next : SharedState σ, next.stack = shared.stack →
      EndsAs next (second next.source) (secondShared next)) :
    EndsAs shared (run.andThen second) (ended.andThen secondShared) := by
  cases h with
  | error error stack text steps source => exact .error error stack text steps source
  | ok text steps source =>
    have hnext := hsecond ⟨shared.stack, shared.text ++ text, shared.steps ++ steps, source⟩ rfl
    simp only [Outcome.andThen, Ended.andThen]
    generalize second source = run at hnext ⊢
    generalize secondShared _ = ended at hnext ⊢
    cases hnext with
    | ok after steps' source' =>
      rw [List.append_assoc, List.append_assoc]
      exact .ok (text ++ after) (steps ++ steps') source'
    | error error stack after steps' source' =>
      rw [List.append_assoc]
      exact .error error stack after (steps ++ steps') source'

theorem endsAs_segments {stack : List Symbol} {visit : Symbol → σ → Outcome σ}
    {visitShared : Symbol → SharedState σ → Ended σ}
    (hvisit : ∀ symbol (shared : SharedState σ), shared.stack = stack →
      EndsAs shared (visit symbol shared.source) (visitShared symbol shared))
    (segments : List Segment) (hstack : shared.stack = stack) :
    EndsAs shared (expandSegments visit segments shared.source)
      (segmentsShared visitShared segments shared) := by
  have hdone : ∀ (text : Text) (shared : SharedState σ),
      EndsAs shared (Outcome.done (.ok text) shared.source) (.ok (), shared.write text) := by
    intro text shared
    have hok : EndsAs shared _ _ := .ok text [] shared.source
    rwa [List.append_nil] at hok
  induction segments generalizing shared with
  | nil =>
    have hnil := hdone [] shared
    rwa [SharedState.write, List.append_nil] at hnil
  | cons segment rest ih =>
    have hrest : ∀ next : SharedState σ, next.stack = shared.stack →
        EndsAs next (expandSegments visit rest next.source)
          (segmentsShared visitShared rest next) :=
      fun next hnext => ih (hnext.trans hstack)
    cases segment with
    | literal text => exact (hdone text shared).andThen hrest
    | ref symbol => exact (hvisit symbol shared hstack).andThen hrest
    | forced symbol => exact (hvisit symbol shared hstack).andThen hrest

/-- What a call put on the stack, it takes away when its segments are expanded. -/
theorem EndsAs.pop {symbol : Symbol} {step : TraceStep} {source : σ}
    (h : EndsAs ((shared.record step source).push symbol) run ended) :
    EndsAs shared (run.after step) (ended.andThen fun shared => (.ok (), shared.pop)) := by
  cases h with
  | ok text steps source' =>
    have hok : EndsAs shared _ _ := .ok text (step :: steps) source'
    simpa [Ended.andThen, Outcome.after, SharedState.push, SharedState.record,
      SharedState.pop] using hok
  | error error stack text steps source' =>
    have herror : EndsAs shared _ _ := .error error stack text (step :: steps) source'
    simpa [Ended.andThen, Outcome.after, SharedState.push, SharedState.record] using herror

end EndsAs

namespace Table

variable [RandomSource σ] {table : Table} {limit left : Nat} {stack : List Symbol}
  {symbol : Symbol} {source : σ} {run : Outcome σ}

/-- A call on shared state ends the way the call with a stack of its own does. -/
theorem Call.endsAs (h : table.Call limit left stack symbol source run)
    (hleft : stack.length + left = limit) {shared : SharedState σ} (hstack : shared.stack = stack)
    (hsource : shared.source = source) :
    EndsAs shared run (table.visitShared limit left symbol shared) := by
  induction h generalizing shared with
  | undefined left hget =>
    subst hstack hsource
    rw [visitShared, hget]
    exact .fails _ shared
  | full hget =>
    subst hstack hsource
    have hlimit : limit ≤ shared.stack.length := by omega
    simp only [visitShared, hget, if_pos hlimit]
    exact .fails _ shared
  | outOfRange left hget hpick hchoice =>
    subst hstack hsource
    have hlimit : ¬limit ≤ shared.stack.length := by omega
    simp only [visitShared, hget, hpick, hchoice, if_neg hlimit]
    exact .error _ shared.stack shared.text _ _
  | @chosen _ symbol _ next production choice a left hget hpick hchoice _ ih =>
    subst hstack hsource
    have hlimit : ¬limit ≤ shared.stack.length := by omega
    simp only [visitShared, hget, hpick, hchoice, if_neg hlimit]
    -- Every call for a reference finds this symbol on top, also behind other calls.
    have hvisit : ∀ symbol' (next : SharedState σ), next.stack = shared.stack ++ [symbol] →
        EndsAs next (table.visit limit left (shared.stack ++ [symbol]) symbol' next.source)
          (table.visitShared limit left symbol' next) := by
      intro symbol' next hnext
      refine ih symbol' next.source ?_ hnext rfl
      rw [List.length_append, List.length_singleton]
      omega
    exact (endsAs_segments hvisit a.segments rfl).pop

/-- Expanding with one stack for all calls gives what expanding with a stack for each call gives,
whatever an earlier expansion has left on the stack. -/
theorem expandShared_eq (table : Table) (limit : Nat) (symbol : Symbol) (shared : SharedState σ) :
    ∃ stack text, table.expandShared limit symbol shared =
        ((table.expand limit symbol shared.source).result.map fun _ => (),
          ⟨stack, text, shared.steps ++ (table.expand limit symbol shared.source).steps,
            (table.expand limit symbol shared.source).source⟩) ∧
      ∀ result, (table.expand limit symbol shared.source).result = .ok result →
        stack = [] ∧ text = result := by
  have hends : EndsAs { shared with stack := [], text := [] } _ _ :=
    (table.call_visit limit limit [] symbol shared.source).endsAs (Nat.zero_add limit) rfl rfl
  unfold expandShared expand
  generalize table.visit limit limit [] symbol shared.source = run at hends ⊢
  generalize table.visitShared limit limit symbol { shared with stack := [], text := [] } = ended
    at hends ⊢
  cases hends with
  | ok text steps source => exact ⟨[], text, rfl, fun result h => ⟨rfl, Except.ok.inj h⟩⟩
  | error error stack text steps source => exact ⟨stack, text, rfl, nofun⟩

end Table

end TextGrammar
