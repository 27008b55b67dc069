import TextGrammar.Proofs.Expansion.Traces

/-!
# The depth limit

Under a smaller limit an expansion does what it does under a greater one, or it is cut short by the
limit and has done the beginning of it.

* `Cut` compares a run with one under a greater limit. It goes through two runs in a row, since the
  runs have the same source behind them as long as neither is cut short.
* `Table.Call.cut`: calls with less room on the stack are cut, from calls with more room.
* `Table.limit_only_cuts` is the result.
-/

namespace TextGrammar

/-- Whether an expansion ended because of the limit. -/
def CutShort (result : Except ExpansionError Text) : Prop :=
  ∃ symbol depth stack, result = .error (.cyclicGrammar symbol depth stack)

variable {σ : Type}

/-- A run is the same as one with more room, or it is cut short where that one goes on. -/
inductive Cut : Outcome σ → Outcome σ → Prop where
  | same (run : Outcome σ) : Cut run run
  | short {symbol : Symbol} {depth : Nat} {stack : List Symbol} {steps : List TraceStep}
      {source : σ} {roomy : Outcome σ} (hsteps : steps <+: roomy.steps) :
      Cut ⟨.error (.cyclicGrammar symbol depth stack), steps, source⟩ roomy

section Cut

variable {run roomy : Outcome σ}

theorem Cut.isPrefix_steps (h : Cut run roomy) : run.steps <+: roomy.steps := by
  cases h with
  | same => exact List.prefix_refl _
  | short hsteps => exact hsteps

/-- A run that is not cut short is the same with more room. -/
theorem Cut.eq_of_not_cutShort (h : Cut run roomy) (hrun : ¬CutShort run.result) : roomy = run := by
  cases h with
  | same => rfl
  | short => exact absurd ⟨_, _, _, rfl⟩ hrun

/-- A run that is cut short with more room is cut short. -/
theorem Cut.cutShort (h : Cut run roomy) (hroomy : CutShort roomy.result) :
    CutShort run.result := by
  cases h with
  | same => exact hroomy
  | short => exact ⟨_, _, _, rfl⟩

theorem Cut.after (h : Cut run roomy) (step : TraceStep) :
    Cut (run.after step) (roomy.after step) := by
  cases h with
  | same => exact .same _
  | short hsteps => exact .short (List.cons_prefix_cons.2 ⟨rfl, hsteps⟩)

theorem Cut.andThen {second roomySecond : σ → Outcome σ} (h : Cut run roomy)
    (hsecond : ∀ source, Cut (second source) (roomySecond source)) :
    Cut (run.andThen second) (roomy.andThen roomySecond) := by
  cases h with
  | short hsteps =>
    -- What follows the run with more room only adds steps to it.
    refine .short (hsteps.trans ?_)
    rcases Outcome.andThen_cases roomy roomySecond with ⟨_, -, heq⟩ | ⟨_, -, heq⟩
    · simp only [heq, List.prefix_rfl]
    · rw [heq]
      exact List.prefix_append ..
  | same =>
    obtain ⟨result, steps, source⟩ := run
    cases result with
    | error error => exact .same _
    | ok text =>
      -- Both go on with the same source.
      simp only [Outcome.andThen]
      have hnext := hsecond source
      generalize second source = next at hnext ⊢
      generalize roomySecond source = roomyNext at hnext ⊢
      cases hnext with
      | same => exact .same _
      | short hsteps => exact .short ((List.prefix_append_right_inj steps).2 hsteps)

theorem cut_segments {visit roomyVisit : Symbol → σ → Outcome σ}
    (hvisit : ∀ symbol source, Cut (visit symbol source) (roomyVisit symbol source))
    (segments : List Segment) (source : σ) :
    Cut (expandSegments visit segments source) (expandSegments roomyVisit segments source) := by
  induction segments generalizing source with
  | nil => exact .same _
  | cons segment rest ih =>
    rw [expandSegments_cons, expandSegments_cons]
    cases segment with
    | literal text => exact (Cut.same _).andThen ih
    | ref symbol => exact (hvisit symbol source).andThen ih
    | forced symbol => exact (hvisit symbol source).andThen ih

end Cut

namespace Table

variable [RandomSource σ]

/-- With more room on the stack a call does the same, or goes on where the call is cut short. -/
theorem Call.cut {table : Table} {limit left : Nat} {stack : List Symbol} {symbol : Symbol}
    {source : σ} {run : Outcome σ} (h : table.Call limit left stack symbol source run)
    (limit' : Nat) {left' : Nat} (hleft : left ≤ left') :
    Cut run (table.visit limit' left' stack symbol source) := by
  induction h generalizing left' with
  | undefined left hget =>
    rw [(Call.undefined left' hget).visit_eq]
    exact .same _
  | full => exact .short List.nil_prefix
  | outOfRange left hget hpick hchoice =>
    obtain ⟨left', rfl⟩ := Nat.exists_eq_add_of_le' (Nat.zero_lt_of_lt hleft)
    rw [(Call.outOfRange left' hget hpick hchoice).visit_eq]
    exact .same _
  | @chosen stack symbol _ next _ choice a left hget hpick hchoice _ ih =>
    obtain ⟨left', rfl⟩ := Nat.exists_eq_add_of_le' (Nat.zero_lt_of_lt hleft)
    rw [(Call.chosen left' hget hpick hchoice fun _ _ => table.call_visit ..).visit_eq]
    have hinner := cut_segments
      (fun symbol' source' => ih symbol' source' (Nat.le_of_succ_le_succ hleft)) a.segments next
    exact hinner.after _

theorem cut_expand (table : Table) {limit limit' : Nat} (h : limit ≤ limit') (symbol : Symbol)
    (source : σ) : Cut (table.expand limit symbol source) (table.expand limit' symbol source) :=
  (table.call_visit limit limit [] symbol source).cut limit' h

/-- The depth limit only ever turns results into reports of a cyclic grammar. Under a greater limit
the trace and the picks go on from those under the smaller one. A result that is no such report
stays, with the same trace, the same picks and the same source behind them, and where the greater
limit leads to such a report, the smaller one does. -/
theorem limit_only_cuts (table : Table) {limit limit' : Nat} (hle : limit ≤ limit')
    (symbol : Symbol) (source : σ) {result result' : Except ExpansionError Text}
    {expander expander' : Expander} {last last' : Journal σ}
    (hrun : (Expander.new table limit).traced.expand symbol (Journal.start source) =
      (result, expander, last))
    (hrun' : (Expander.new table limit').traced.expand symbol (Journal.start source) =
      (result', expander', last')) :
    (¬CutShort result → result' = result ∧ expander'.takeTrace.1 = expander.takeTrace.1 ∧
        last' = last) ∧
      (CutShort result' → CutShort result) ∧
      expander.takeTrace.1 <+: expander'.takeTrace.1 ∧ last.picks <+: last'.picks := by
  rw [traced_expand, expand_journal, Prod.mk.injEq, Prod.mk.injEq] at hrun hrun'
  obtain ⟨rfl, rfl, rfl⟩ := hrun
  obtain ⟨rfl, rfl, rfl⟩ := hrun'
  have hcut := table.cut_expand hle symbol source
  refine ⟨fun hresult => ?_, hcut.cutShort, hcut.isPrefix_steps, hcut.isPrefix_steps.map _⟩
  rw [hcut.eq_of_not_cutShort hresult]
  exact ⟨rfl, rfl, rfl⟩

/-- `commaList` needs room for three symbols to come to its open reference. -/
theorem goneTrace_limits :
    ((Expander.new commaList 2).traced.expand .start (Journal.start (Script.ofList [0, 1, 2]))).2 =
        (⟨commaList, 2, some (goneTrace.take 2)⟩, ⟨⟨#[0, 1, 2], 2⟩, [⟨1, 0⟩, ⟨3, 1⟩]⟩) ∧
      (Expander.new commaList 3).traced.expand .start (Journal.start (Script.ofList [0, 1, 2])) =
        (.error goneError, ⟨commaList, 3, some goneTrace⟩,
          ⟨⟨#[0, 1, 2], 3⟩, [⟨1, 0⟩, ⟨3, 1⟩, ⟨3, 2⟩]⟩) ∧
      goneTrace.take 2 <+: goneTrace ∧ ¬CutShort (.error goneError) ∧
      ((Expander.new commaList 256).traced.expand .start
        (Journal.start (Script.ofList [0, 1, 2]))).1 = .error goneError := by
  have hshort : ((Expander.new commaList 2).traced.expand .start
      (Journal.start (Script.ofList [0, 1, 2]))).2 =
        (⟨commaList, 2, some (goneTrace.take 2)⟩, ⟨⟨#[0, 1, 2], 2⟩, [⟨1, 0⟩, ⟨3, 1⟩]⟩) := by
    decide +kernel
  have hrun : (Expander.new commaList 3).traced.expand .start
      (Journal.start (Script.ofList [0, 1, 2])) = (.error goneError,
        ⟨commaList, 3, some goneTrace⟩, ⟨⟨#[0, 1, 2], 3⟩, [⟨1, 0⟩, ⟨3, 1⟩, ⟨3, 2⟩]⟩) := by
    decide +kernel
  have hresult : ¬CutShort (.error goneError) := by
    rintro ⟨symbol, depth, stack, h⟩
    cases h
  obtain ⟨-, -, hbegins, -⟩ := limit_only_cuts commaList (show 2 ≤ 3 by decide) .start
    (Script.ofList [0, 1, 2]) (Prod.ext rfl hshort) hrun
  obtain ⟨hsame, -⟩ := limit_only_cuts commaList (show 3 ≤ 256 by decide) .start
    (Script.ofList [0, 1, 2]) hrun rfl
  exact ⟨hshort, hrun, hbegins, hresult, (hsame hresult).1⟩

end Table

end TextGrammar
