import TextGrammar.Proofs.Language

/-!
# What an expansion asks its source

An expansion sees nothing of its source but the answers to what it asks, so its result and its
steps are a function of these answers.

* `Table.Call` is what one call of an expansion does, and `expandSegments_cons` one segment. With
  `expandSegments_induction` what holds of calls is carried over to segments.
* `Replies` says that a source gives certain answers in a row.
* `Table.Call.answered`: the steps of a run are what its source was asked and what it answered, in
  order, nothing left out and nothing added.
* `Table.Call.replays`: any source that gives these answers leads to the same run.
* `Journal` writes down what a source is asked, and `Table.expand_journal` reads it off.
-/

namespace TextGrammar

/-- A question to a source, for a choice below a length, and its answer. -/
structure Pick where
  length : Nat
  choice : Nat
deriving DecidableEq, Repr

/-- The question that a step asked its source, with the answer. -/
def TraceStep.pick (step : TraceStep) : Pick :=
  ⟨step.alternatives, step.choice⟩

variable {σ τ : Type}

/-! ## One segment, one call -/

/-- Expands one segment. -/
def Segment.expand (visit : Symbol → σ → Outcome σ) : Segment → σ → Outcome σ
  | literal text => Outcome.done (.ok text)
  | ref symbol => visit symbol
  | forced symbol => visit symbol

theorem expandSegments_cons (visit : Symbol → σ → Outcome σ) (segment : Segment)
    (rest : List Segment) (source : σ) :
    expandSegments visit (segment :: rest) source =
      (segment.expand visit source).andThen (expandSegments visit rest) := by
  cases segment <;> rfl

/-- Of two runs in a row the second one takes place if the first one succeeds. -/
theorem Outcome.andThen_cases (first : Outcome σ) (second : σ → Outcome σ) :
    (∃ error, first.result = .error error ∧ first.andThen second = first) ∨
      ∃ text, first.result = .ok text ∧ first.andThen second =
        ⟨(second first.source).result.map (text ++ ·), first.steps ++ (second first.source).steps,
          (second first.source).source⟩ := by
  unfold Outcome.andThen
  split
  · rename_i error herror
    exact Or.inl ⟨error, herror, rfl⟩
  · rename_i text hok
    exact Or.inr ⟨text, hok, rfl⟩

/-- What holds of a text alone and of the runs for the references, and of two runs in a row if it
holds of both, holds of a run over segments. -/
theorem expandSegments_induction {P : σ → Outcome σ → Prop} {visit : Symbol → σ → Outcome σ}
    (hdone : ∀ text source, P source (.done (.ok text) source))
    (handThen : ∀ {source : σ} {first : Outcome σ} {second : σ → Outcome σ}, P source first →
      (∀ next, P next (second next)) → P source (first.andThen second))
    (hvisit : ∀ symbol source, P source (visit symbol source)) (segments : List Segment)
    (source : σ) : P source (expandSegments visit segments source) := by
  induction segments generalizing source with
  | nil => exact hdone [] source
  | cons segment rest ih =>
    rw [expandSegments_cons]
    cases segment with
    | literal text => exact handThen (hdone text source) ih
    | ref symbol => exact handThen (hvisit symbol source) ih
    | forced symbol => exact handThen (hvisit symbol source) ih

namespace Table

variable [RandomSource σ] {table : Table} {limit left : Nat} {stack : List Symbol}
  {symbol : Symbol} {source : σ} {run : Outcome σ}

/-- What one call of an expansion does, with `left` more symbols allowed on the stack. -/
inductive Call (table : Table) (limit : Nat) :
    Nat → List Symbol → Symbol → σ → Outcome σ → Prop where
  /-- The symbol is not defined. -/
  | undefined {stack : List Symbol} {symbol : Symbol} {source : σ} (left : Nat)
      (hget : table.get? symbol = none) :
      Call table limit left stack symbol source
        (.done (.error (.undefinedSymbol symbol stack)) source)
  /-- The stack is full. -/
  | full {stack : List Symbol} {symbol : Symbol} {source : σ} {production : Production}
      (hget : table.get? symbol = some production) :
      Call table limit 0 stack symbol source
        (.done (.error (.cyclicGrammar symbol limit stack)) source)
  /-- The source chooses an alternative that is not there. -/
  | outOfRange {stack : List Symbol} {symbol : Symbol} {source next : σ} {production : Production}
      {choice : Nat} (left : Nat) (hget : table.get? symbol = some production)
      (hpick : RandomSource.pick source production.size = (choice, next))
      (hchoice : production.alternatives[choice]? = none) :
      Call table limit (left + 1) stack symbol source
        (.after ⟨stack.length, symbol, choice, production.size⟩
          (.done (.error (.choiceOutOfRange symbol choice production.size)) next))
  /-- The chosen alternative is expanded, with calls one symbol deeper. -/
  | chosen {stack : List Symbol} {symbol : Symbol} {source next : σ} {production : Production}
      {choice : Nat} {a : Alternative} (left : Nat) (hget : table.get? symbol = some production)
      (hpick : RandomSource.pick source production.size = (choice, next))
      (hchoice : production.alternatives[choice]? = some a)
      (hinner : ∀ symbol' source', Call table limit left (stack ++ [symbol]) symbol' source'
        (table.visit limit left (stack ++ [symbol]) symbol' source')) :
      Call table limit (left + 1) stack symbol source
        (.after ⟨stack.length, symbol, choice, production.size⟩
          (expandSegments (table.visit limit left (stack ++ [symbol])) a.segments next))

theorem Call.visit_eq (h : table.Call limit left stack symbol source run) :
    table.visit limit left stack symbol source = run := by
  rw [visit.eq_def]
  cases h with
  | undefined left hget => simp only [hget]
  | full hget => simp only [hget]
  | outOfRange left hget hpick hchoice => simp only [hget, hpick, hchoice]
  | chosen left hget hpick hchoice => simp only [hget, hpick, hchoice]

theorem Call.visit (h : table.Call limit left stack symbol source run) :
    table.Call limit left stack symbol source (table.visit limit left stack symbol source) := by
  rwa [h.visit_eq]

/-- An expansion is made of calls. -/
theorem call_visit (table : Table) (limit left : Nat) (stack : List Symbol) (symbol : Symbol)
    (source : σ) :
    table.Call limit left stack symbol source (table.visit limit left stack symbol source) := by
  induction left generalizing stack symbol source with
  | zero =>
    cases hget : table.get? symbol with
    | none => exact (Call.undefined 0 hget).visit
    | some production => exact (Call.full hget).visit
  | succ left ih =>
    cases hget : table.get? symbol with
    | none => exact (Call.undefined (left + 1) hget).visit
    | some production =>
      cases hpick : RandomSource.pick source production.size with
      | mk choice next =>
        cases hchoice : production.alternatives[choice]? with
        | none => exact (Call.outOfRange left hget hpick hchoice).visit
        | some a => exact (Call.chosen left hget hpick hchoice (ih _)).visit

end Table

/-! ## Answers in a row -/

/-- Asked for the lengths of `picks` in a row, a source gives their choices, and is `last` then. -/
def Replies [RandomSource σ] : σ → List Pick → σ → Prop
  | source, [], last => source = last
  | source, asked :: rest, last =>
    ∃ next, RandomSource.pick source asked.length = (asked.choice, next) ∧ Replies next rest last

theorem replies_append [RandomSource σ] {source last : σ} {picks picks' : List Pick} :
    Replies source (picks ++ picks') last ↔
      ∃ middle, Replies source picks middle ∧ Replies middle picks' last := by
  induction picks generalizing source with
  | nil =>
    constructor
    · intro h
      exact ⟨source, rfl, h⟩
    · rintro ⟨_, rfl, h⟩
      exact h
  | cons asked rest ih =>
    constructor
    · rintro ⟨next, hpick, hrest⟩
      obtain ⟨middle, hfront, hback⟩ := ih.1 hrest
      exact ⟨middle, ⟨next, hpick, hfront⟩, hback⟩
    · rintro ⟨middle, ⟨next, hpick, hfront⟩, hback⟩
      exact ⟨next, hpick, ih.2 ⟨middle, hfront, hback⟩⟩

/-- The steps of a run from a source are what the source is asked and what it answers. -/
def Answered [RandomSource σ] (source : σ) (run : Outcome σ) : Prop :=
  Replies source (run.steps.map TraceStep.pick) run.source

/-- A source with the answers of one run makes another run the same. -/
def Replays [RandomSource τ] (run : σ → Outcome σ) (run' : τ → Outcome τ) : Prop :=
  ∀ source other last, Replies other ((run source).steps.map TraceStep.pick) last →
    run' other = ⟨(run source).result, (run source).steps, last⟩

theorem Answered.andThen [RandomSource σ] {source : σ} {first : Outcome σ}
    {second : σ → Outcome σ} (hfirst : Answered source first)
    (hsecond : ∀ next, Answered next (second next)) : Answered source (first.andThen second) := by
  rcases Outcome.andThen_cases first second with ⟨error, -, heq⟩ | ⟨text, -, heq⟩
  · rw [heq]
    exact hfirst
  · unfold Answered
    rw [heq, List.map_append, replies_append]
    exact ⟨first.source, hfirst, hsecond first.source⟩

section Replays

variable [RandomSource τ]

theorem replays_done (result : Except ExpansionError Text) :
    Replays (σ := σ) (τ := τ) (Outcome.done result) (Outcome.done result) := by
  intro source other last h
  rw [show other = last from h]
  rfl

theorem Replays.andThen {first second : σ → Outcome σ} {first' second' : τ → Outcome τ}
    (hfirst : Replays first first') (hsecond : Replays second second') :
    Replays (fun source => (first source).andThen second)
      fun source => (first' source).andThen second' := by
  intro source other last
  show Replies other (((first source).andThen second).steps.map TraceStep.pick) last →
    (first' other).andThen second' = _
  rcases Outcome.andThen_cases (first source) second with ⟨error, herror, heq⟩ | ⟨text, hok, heq⟩
  · rw [heq]
    intro h
    rw [hfirst source other last h]
    simp only [Outcome.andThen, herror]
  · rw [heq, List.map_append, replies_append]
    rintro ⟨middle, hmiddle, hlast⟩
    rw [hfirst source other middle hmiddle]
    simp only [Outcome.andThen, hok]
    rw [hsecond _ middle last hlast]

theorem Replays.expandSegments {visit : Symbol → σ → Outcome σ} {visit' : Symbol → τ → Outcome τ}
    (hvisit : ∀ symbol, Replays (visit symbol) (visit' symbol)) (segments : List Segment) :
    Replays (TextGrammar.expandSegments visit segments)
      (TextGrammar.expandSegments visit' segments) := by
  induction segments with
  | nil => exact replays_done _
  | cons segment rest ih =>
    rw [funext (expandSegments_cons visit segment rest),
      funext (expandSegments_cons visit' segment rest)]
    cases segment with
    | literal text => exact (replays_done _).andThen ih
    | ref symbol => exact (hvisit symbol).andThen ih
    | forced symbol => exact (hvisit symbol).andThen ih

end Replays

namespace Table

variable [RandomSource σ] {table : Table} {limit left : Nat} {stack : List Symbol}
  {symbol : Symbol} {source : σ} {run : Outcome σ}

/-- The steps of a call are what its source is asked and what it answers. -/
theorem Call.answered (h : table.Call limit left stack symbol source run) :
    Answered source run := by
  induction h with
  | undefined => exact rfl
  | full => exact rfl
  | outOfRange left hget hpick => exact ⟨_, hpick, rfl⟩
  | @chosen _ _ _ next _ _ a left hget hpick _ _ ih =>
    have hinner := expandSegments_induction (fun _ _ => rfl) Answered.andThen ih a.segments next
    exact ⟨next, hpick, hinner⟩

/-- A source that gives the answers of a call leads to the same call. -/
theorem Call.replays [RandomSource τ] (h : table.Call limit left stack symbol source run)
    {other last : τ} (hreplies : Replies other (run.steps.map TraceStep.pick) last) :
    table.visit limit left stack symbol other = ⟨run.result, run.steps, last⟩ := by
  induction h generalizing other last with
  | undefined left hget =>
    rw [(Call.undefined left hget).visit_eq, show other = last from hreplies]
    rfl
  | full hget =>
    rw [(Call.full hget).visit_eq, show other = last from hreplies]
    rfl
  | outOfRange left hget hpick hchoice =>
    obtain ⟨next', hpick', hlast⟩ := hreplies
    rw [(Call.outOfRange left hget hpick' hchoice).visit_eq, show next' = last from hlast]
    rfl
  | @chosen stack symbol _ next _ _ a left hget hpick hchoice _ ih =>
    obtain ⟨next', hpick', hlast⟩ := hreplies
    have hvisit : ∀ symbol', Replays (σ := σ) (τ := τ)
        (table.visit limit left (stack ++ [symbol]) symbol')
        (table.visit limit left (stack ++ [symbol]) symbol') :=
      fun symbol' source' _ _ => ih symbol' source'
    have hinner := Replays.expandSegments hvisit a.segments
    rw [(Call.chosen left hget hpick' hchoice fun _ _ => table.call_visit ..).visit_eq]
    exact congrArg (Outcome.after _) (hinner next next' last hlast)

end Table

/-! ## Journals -/

/-- A source that keeps a journal of what it is asked and what it answers. -/
structure Journal (σ : Type) where
  source : σ
  picks : List Pick
deriving DecidableEq, Repr

namespace Journal

/-- A source with an empty journal. -/
def start (source : σ) : Journal σ :=
  ⟨source, []⟩

variable [RandomSource σ]

instance : RandomSource (Journal σ) where
  pick journal length :=
    let (choice, source) := RandomSource.pick journal.source length
    (choice, ⟨source, journal.picks ++ [⟨length, choice⟩]⟩)

theorem replies_journal {source last : σ} {picks : List Pick} (h : Replies source picks last)
    (before : List Pick) :
    Replies (Journal.mk source before) picks (Journal.mk last (before ++ picks)) := by
  induction picks generalizing source before with
  | nil =>
    rw [List.append_nil]
    exact congrArg (Journal.mk · before) h
  | cons asked rest ih =>
    obtain ⟨next, hpick, hrest⟩ := h
    have hjournal := ih hrest (before ++ [asked])
    rw [List.append_assoc, List.singleton_append] at hjournal
    refine ⟨_, ?_, hjournal⟩
    simp only [RandomSource.pick] at hpick ⊢
    rw [hpick]

end Journal

/-- A journal does not change an expansion, and holds its steps afterwards: one entry for each, in
order. -/
theorem Table.expand_journal [RandomSource σ] (table : Table) (limit : Nat) (symbol : Symbol)
    (source : σ) :
    table.expand limit symbol (Journal.start source) =
      ⟨(table.expand limit symbol source).result, (table.expand limit symbol source).steps,
        ⟨(table.expand limit symbol source).source,
          (table.expand limit symbol source).steps.map TraceStep.pick⟩⟩ :=
  have hcall := table.call_visit limit limit [] symbol source
  hcall.replays (Journal.replies_journal hcall.answered [])

/-! ## Scripts -/

/-- A script gives the choices that come next, if they are in range. -/
theorem Script.replies_resume {picks : List Pick} (h : ∀ asked ∈ picks, asked.choice < asked.length)
    (made coming : List Nat) :
    Replies (Script.resume made (picks.map Pick.choice ++ coming)) picks
      (Script.resume (made ++ picks.map Pick.choice) coming) := by
  induction picks generalizing made with
  | nil =>
    rw [List.map_nil, List.append_nil]
    rfl
  | cons asked rest ih =>
    obtain ⟨hasked, hrest⟩ := List.forall_mem_cons.1 h
    have hreplies := ih hrest (made ++ [asked.choice])
    rw [List.append_assoc, List.singleton_append] at hreplies
    exact ⟨_, Script.pick_resume hasked, hreplies⟩

end TextGrammar
