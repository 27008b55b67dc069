import TextGrammar.Proofs.Expansion.SharedStack
import TextGrammar.Proofs.Expansion.Traces

/-!
# Reused expanders

An expander may be asked for any number of expansions, with one source for all of them. Nothing goes
from one to the next but the steps that it records, and taking these empties the record.

* `Expander.Request` is what an expander is asked for, and `Expander.run` carries requests out.
* `Expander.StartedBy` is what all requests keep, and `Expander.run_expand` what a row of expansions
  records.
* `StackedExpander` keeps its stack from one expansion to the next, with whatever a failed one has
  left there. `StackedExpander.forget_run`: its replies are the same.
* `Expander.reuse_is_fresh` is the result.
-/

namespace TextGrammar

namespace Expander

/-- Something an expander is asked for. -/
inductive Request where
  | expand (symbol : Symbol)
  /-- What was recorded since this was asked for last. -/
  | takeTrace
deriving DecidableEq, Repr

/-- What is replied to a request. -/
inductive Reply where
  | text (result : Except ExpansionError Text)
  | trace (steps : List TraceStep)
deriving DecidableEq

variable {σ : Type}

/-- Carries requests out, one after the other, on the source that the last one has left. -/
def serveAll {ε : Type} (serve : ε → Request → σ → Reply × ε × σ) :
    ε → List Request → σ → List Reply × ε × σ
  | expander, [], source => ([], expander, source)
  | expander, request :: rest, source =>
    let (reply, next, source) := serve expander request source
    let (replies, last, source) := serveAll serve next rest source
    (reply :: replies, last, source)

/-- An expander that has expanded nothing yet. -/
def start (table : Table) (limit : Nat) (records : Bool) : Expander :=
  if records then (new table limit).traced else new table limit

section Run

variable [RandomSource σ]

/-- Carries a request out. -/
def serve (expander : Expander) : Request → σ → Reply × Expander × σ
  | .expand symbol, source => (expander.expand symbol source).map .text id
  | .takeTrace, source => (.trace expander.takeTrace.1, expander.takeTrace.2, source)

def run : Expander → List Request → σ → List Reply × Expander × σ :=
  serveAll serve

/-- The traces of new expanders, one for each symbol, on the source that the one before has left. -/
def freshTraces (table : Table) (limit : Nat) : List Symbol → σ → List TraceStep
  | [], _ => []
  | symbol :: rest, source =>
    let (_, expander, next) := (new table limit).traced.expand symbol source
    expander.takeTrace.1 ++ freshTraces table limit rest next

end Run

/-! ## What stays -/

/-- An expander that differs from a new one in no more than what it has recorded. -/
structure StartedBy (table : Table) (limit : Nat) (records : Bool) (expander : Expander) : Prop where
  table_eq : expander.table = table
  maxDepth_eq : expander.maxDepth = limit
  isSome_trace : expander.trace.isSome = records

section StartedBy

variable {table : Table} {limit : Nat} {records : Bool} {expander : Expander}

theorem startedBy_start (table : Table) (limit : Nat) (records : Bool) :
    StartedBy table limit records (start table limit records) := by
  cases records with
  | false => exact ⟨rfl, rfl, rfl⟩
  | true => exact ⟨rfl, rfl, rfl⟩

/-- Once its trace is taken, an expander is a new one. -/
theorem StartedBy.takeTrace_eq (h : StartedBy table limit records expander) :
    expander.takeTrace.2 = start table limit records := by
  obtain ⟨rfl, rfl, rfl⟩ := h
  obtain ⟨table, limit, trace⟩ := expander
  cases trace with
  | none => rfl
  | some steps => rfl

variable [RandomSource σ]

/-- Of an expander that has done other work, the table and the limit are all that matters. -/
theorem StartedBy.expand_eq (h : StartedBy table limit records expander) (symbol : Symbol)
    (source : σ) :
    (expander.expand symbol source).1 = ((new table limit).expand symbol source).1 ∧
      (expander.expand symbol source).2.2 = ((new table limit).expand symbol source).2.2 := by
  obtain ⟨rfl, rfl, -⟩ := h
  exact ⟨rfl, rfl⟩

theorem StartedBy.serve (h : StartedBy table limit records expander) (request : Request)
    (source : σ) : StartedBy table limit records (expander.serve request source).2.1 := by
  cases request with
  | expand symbol => exact ⟨h.table_eq, h.maxDepth_eq, Option.isSome_map.trans h.isSome_trace⟩
  | takeTrace =>
    have heq : (expander.serve .takeTrace source).2.1 = start table limit records :=
      h.takeTrace_eq
    rw [heq]
    exact startedBy_start table limit records

theorem StartedBy.run (h : StartedBy table limit records expander) (requests : List Request)
    (source : σ) : StartedBy table limit records (expander.run requests source).2.1 := by
  induction requests generalizing expander source with
  | nil => exact h
  | cons request rest ih => exact ih (h.serve request source) _

/-! ## What is recorded -/

theorem run_append (expander : Expander) (requests later : List Request) (source : σ) :
    (expander.run (requests ++ later) source).2 =
      ((expander.run requests source).2.1.run later (expander.run requests source).2.2).2 := by
  induction requests generalizing expander source with
  | nil => rfl
  | cons request rest ih => exact ih _ _

/-- Behind a row of expansions, the record has their traces at its end. -/
theorem run_expand (expander : Expander) (symbols : List Symbol) (source : σ) :
    (expander.run (symbols.map .expand) source).2.1 =
      { expander with
        trace := expander.trace.map
          (· ++ freshTraces expander.table expander.maxDepth symbols source) } := by
  induction symbols generalizing expander source with
  | nil =>
    obtain ⟨table, limit, trace⟩ := expander
    cases trace with
    | none => rfl
    | some steps => exact congrArg (fun steps => mk table limit (some steps)) (List.append_nil _).symm
  | cons symbol rest ih =>
    have hrest := ih (expander.expand symbol source).2.1 (expander.expand symbol source).2.2
    obtain ⟨table, limit, trace⟩ := expander
    refine hrest.trans ?_
    cases trace with
    | none => rfl
    | some steps => exact congrArg (fun steps => mk table limit (some steps)) (List.append_assoc _ _ _)

/-- What was requested before the last taking of the trace is not recorded any more. -/
theorem run_of_taken {before : List Request}
    (hbefore : before = [] ∨ before.getLast? = some .takeTrace) (source : σ) :
    ((start table limit records).run before source).2.1 = start table limit records := by
  rcases hbefore with rfl | hlast
  · rfl
  · obtain ⟨earlier, rfl⟩ := List.getLast?_eq_some_iff.1 hlast
    have hstarted := (startedBy_start table limit records).run earlier source
    rw [run_append]
    exact hstarted.takeTrace_eq

theorem takeTrace_run_start (table : Table) (limit : Nat) (records : Bool) (symbols : List Symbol)
    (source : σ) :
    ((start table limit records).run (symbols.map .expand) source).2.1.takeTrace.1 =
      if records then freshTraces table limit symbols source else [] := by
  rw [run_expand]
  cases records with
  | false => rfl
  | true => rfl

end StartedBy

end Expander

/-! ## Expanders with a stack -/

/-- An expander with a stack of its own. An expansion that fails leaves there what it was about. -/
structure StackedExpander where
  table : Table
  maxDepth : Nat
  stack : List Symbol
  trace : Option (List TraceStep)

namespace StackedExpander

open Expander (Request Reply serveAll)

/-- The expander without its stack. -/
def forget (expander : StackedExpander) : Expander :=
  ⟨expander.table, expander.maxDepth, expander.trace⟩

variable {σ : Type} [RandomSource σ]

/-- Expands a symbol, with the stack and the record for all the calls that this takes. -/
def expand (expander : StackedExpander) (symbol : Symbol) (source : σ) :
    Except ExpansionError Text × StackedExpander × σ :=
  let (ended, shared) := expander.table.expandShared expander.maxDepth symbol
    ⟨expander.stack, [], expander.trace.getD [], source⟩
  (ended.map fun _ => shared.text,
    { expander with stack := shared.stack, trace := expander.trace.map fun _ => shared.steps },
    shared.source)

/-- Carries a request out. -/
def serve (expander : StackedExpander) : Request → σ → Reply × StackedExpander × σ
  | .expand symbol, source => (expander.expand symbol source).map .text id
  | .takeTrace, source =>
    (.trace (expander.trace.getD []), { expander with trace := expander.trace.map fun _ => [] },
      source)

def run : StackedExpander → List Request → σ → List Reply × StackedExpander × σ :=
  serveAll serve

/-- Whatever a failed expansion has left on the stack, the next one does not see it. -/
theorem forget_expand (expander : StackedExpander) (symbol : Symbol) (source : σ) :
    (expander.expand symbol source).map id (Prod.map forget id) =
      expander.forget.expand symbol source := by
  obtain ⟨table, limit, stack, trace⟩ := expander
  obtain ⟨left, text, heq, htext⟩ :=
    table.expandShared_eq limit symbol ⟨stack, [], trace.getD [], source⟩
  have hresult : (((table.expand limit symbol source).result.map fun _ => ()).map fun _ => text) =
      (table.expand limit symbol source).result := by
    cases hrun : (table.expand limit symbol source).result with
    | error error => rfl
    | ok result => exact congrArg Except.ok (htext result hrun).2
  simp only [expand, Expander.expand, forget, heq, Prod.map, hresult]
  cases trace with
  | none => rfl
  | some steps => rfl

theorem forget_serve (expander : StackedExpander) (request : Request) (source : σ) :
    (expander.serve request source).map id (Prod.map forget id) =
      expander.forget.serve request source := by
  cases request with
  | takeTrace => rfl
  | expand symbol =>
    simp only [serve, Expander.serve, ← forget_expand]
    rfl

/-- The replies, the record and the source do not depend on a stack. -/
theorem forget_run (expander : StackedExpander) (requests : List Request) (source : σ) :
    (expander.run requests source).map id (Prod.map forget id) =
      expander.forget.run requests source := by
  induction requests generalizing expander source with
  | nil => rfl
  | cons request rest ih =>
    simp only [run, Expander.run, serveAll, ← forget_serve] at ih ⊢
    simp only [Prod.map_fst, Prod.map_snd, id_eq, ← ih]
    rfl

end StackedExpander

/-! ## The result -/

namespace Expander

/-- A reused expander carries nothing over but its record. After any requests, failing ones included,
an expansion gives what a new expander gives on the source as it is then. If no trace was taken yet,
or nothing was asked for since, taking the trace after some expansions gives the traces of new
expanders for these, one after the other, and nothing at all if steps are not recorded. An expander
with a stack replies the same, whatever is on that stack. -/
theorem reuse_is_fresh {σ : Type} [RandomSource σ] (table : Table) (limit : Nat) (records : Bool)
    (before : List Request) (source current : σ) (expander : Expander) (replies : List Reply)
    (hrun : (start table limit records).run before source = (replies, expander, current)) :
    (∀ symbol, ∃ result next last,
      (new table limit).expand symbol current = (result, new table limit, last) ∧
        expander.expand symbol current = (result, next, last)) ∧
      (before = [] ∨ before.getLast? = some .takeTrace → ∀ symbols : List Symbol,
        (expander.run (symbols.map .expand) current).2.1.takeTrace.1 =
          if records then freshTraces table limit symbols current else []) ∧
      ∀ stacked : StackedExpander, stacked.forget = start table limit records →
        ∃ last, stacked.run before source = (replies, last, current) ∧ last.forget = expander := by
  have hstarted := (startedBy_start table limit records).run before source
  rw [hrun] at hstarted
  refine ⟨?_, ?_, ?_⟩
  · intro symbol
    obtain ⟨hresult, hlast⟩ := hstarted.expand_eq symbol current
    exact ⟨_, (expander.expand symbol current).2.1, _, rfl,
      Prod.ext hresult (Prod.ext rfl hlast)⟩
  · intro hbefore symbols
    have htaken : ((start table limit records).run before source).2.1 =
        start table limit records := run_of_taken hbefore source
    rw [hrun] at htaken
    obtain rfl : expander = start table limit records := htaken
    exact takeTrace_run_start table limit records symbols current
  · intro stacked hforget
    have hsame := stacked.forget_run before source
    rw [hforget, hrun] at hsame
    generalize stacked.run before source = ran at hsame ⊢
    obtain ⟨replies', last, current'⟩ := ran
    cases hsame
    exact ⟨last, rfl, rfl⟩

/-- Requests of which the first one fails below two lists. -/
def failingRequests : List Request :=
  [.expand .start, .takeTrace]

/-- The replies, where the choices are those of `Table.goneTrace`. -/
def failingReplies : List Reply :=
  [.text (.error Table.goneError), .trace Table.goneTrace]

theorem failingRequests_reuse :
    let list := Symbol.ofIdentifier "list".toList
    let source := Script.ofList [0, 1, 2, 0, 0, 2]
    let current : Script := { source with next := 3 }
    let expander := (new Table.commaList 4).traced
    (expander.run failingRequests source = (failingReplies, expander, current) ∧
      ((StackedExpander.mk Table.commaList 4 [] (some [])).run failingRequests source).2.1.stack =
        [.start, list, list]) ∧
    (∃ next, expander.expand .start current =
      (.ok "a.".toList, next, { source with next := 5 })) ∧
    (expander.run [.expand .start, .expand list] current).2.1.takeTrace.1 =
      [⟨0, .start, 0, 1⟩, ⟨1, list, 0, 3⟩, ⟨0, list, 2, 3⟩] ∧
    ∃ last, (StackedExpander.mk Table.commaList 4 [list] (some [])).run failingRequests source =
      (failingReplies, last, current) ∧ last.forget = expander := by
  intro list source current expander
  have hrun : (start Table.commaList 4 true).run failingRequests source =
      (failingReplies, expander, current) := by decide +kernel
  have hstack : ((StackedExpander.mk Table.commaList 4 [] (some [])).run failingRequests
      source).2.1.stack = [.start, list, list] := by decide +kernel
  have hresult : (new Table.commaList 4).expand .start current =
      (.ok "a.".toList, new Table.commaList 4, { source with next := 5 }) := by decide +kernel
  obtain ⟨hexpand, htaken, hstacked⟩ := reuse_is_fresh _ _ _ _ _ _ _ _ hrun
  obtain ⟨result, next, last, hfresh, hnext⟩ := hexpand .start
  rw [hresult] at hfresh
  cases hfresh
  have htrace : freshTraces Table.commaList 4 [.start, list] current =
      [⟨0, .start, 0, 1⟩, ⟨1, list, 0, 3⟩, ⟨0, list, 2, 3⟩] := by decide +kernel
  exact ⟨⟨hrun, hstack⟩, ⟨next, hnext⟩, (htaken (.inr rfl) [.start, list]).trans htrace,
    hstacked _ rfl⟩

end Expander

end TextGrammar
