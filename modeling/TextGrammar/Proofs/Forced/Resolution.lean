import Mathlib.Logic.Relation
import TextGrammar.Forced.Unfold
import TextGrammar.Proofs.Parsing

/-!
# Resolving step by step

Every way of resolving forced references is a sequence of passes, each over the alternatives of
one symbol, and so is every failed attempt up to the failure.

* `Table.resolved` is what a pass puts in place of one alternative.
* `Table.Pass` is one pass over a given symbol, and `Table.Pass.alternatives_eq` says what it
  changes. `Table.Step` leaves the symbol open.
* `Table.Repeats` gives the rules of the loop over the passes of one symbol, and
  `Table.repeats_unfoldPasses` shows that it follows them to a result.
* `Table.passes_unfold` and `Table.steps_unfoldEach` take the procedures apart into passes,
  whatever their result is.
* `Table.resolved_of_unfold` and `Table.AsRead.resolved_of_unfoldEach` say what success leaves
  behind.
-/

namespace TextGrammar

/-! ## The leftmost forced reference -/

namespace Alternative

theorem exists_of_firstForcedIn? {segments : List Segment} {index : Nat} {reference : Symbol}
    (h : firstForcedIn? segments = some (index, reference)) :
    ∃ before after, segments = before ++ .forced reference :: after ∧ before.length = index ∧
      firstForcedIn? before = none := by
  induction segments generalizing index with
  | nil => simp [firstForcedIn?] at h
  | cons segment rest ih =>
    cases segment with
    | forced symbol =>
      simp only [firstForcedIn?, Option.some.injEq, Prod.mk.injEq] at h
      obtain ⟨rfl, rfl⟩ := h
      exact ⟨[], rest, rfl, rfl, rfl⟩
    | literal text =>
      simp only [firstForcedIn?, Option.map_eq_some_iff, Prod.mk.injEq, Prod.exists] at h
      obtain ⟨i, symbol, hrest, rfl, rfl⟩ := h
      obtain ⟨before, after, rfl, rfl, hfree⟩ := ih hrest
      exact ⟨.literal text :: before, after, rfl, rfl, by simp [firstForcedIn?, hfree]⟩
    | ref symbol' =>
      simp only [firstForcedIn?, Option.map_eq_some_iff, Prod.mk.injEq, Prod.exists] at h
      obtain ⟨i, symbol, hrest, rfl, rfl⟩ := h
      obtain ⟨before, after, rfl, rfl, hfree⟩ := ih hrest
      exact ⟨.ref symbol' :: before, after, rfl, rfl, by simp [firstForcedIn?, hfree]⟩

theorem forcedReferences_of_firstForced?_eq_none {a : Alternative} (h : a.firstForced? = none) :
    a.forcedReferences = [] := by
  obtain ⟨segments⟩ := a
  unfold firstForced? at h
  unfold forcedReferences
  induction segments with
  | nil => rfl
  | cons segment rest ih =>
    cases segment with
    | forced symbol => cases h
    | literal text => exact ih (Option.map_eq_none_iff.1 h)
    | ref symbol => exact ih (Option.map_eq_none_iff.1 h)

/-- The leftmost forced reference has none in front of it. -/
theorem exists_of_firstForced? {a : Alternative} {index : Nat} {reference : Symbol}
    (h : a.firstForced? = some (index, reference)) :
    ∃ before after, a = ⟨before ++ .forced reference :: after⟩ ∧ before.length = index ∧
      firstForcedIn? before = none := by
  obtain ⟨before, after, hsegments, hrest⟩ := exists_of_firstForcedIn? h
  exact ⟨before, after, congrArg Alternative.mk hsegments, hrest⟩

theorem hasForced_iff {a : Alternative} :
    a.hasForced = true ↔ ∃ target, Segment.forced target ∈ a.segments := by
  unfold hasForced
  constructor
  · intro h
    obtain ⟨⟨index, reference⟩, hfirst⟩ := Option.isSome_iff_exists.1 h
    obtain ⟨before, after, rfl, -, -⟩ := exists_of_firstForced? hfirst
    exact ⟨reference, List.mem_append_right _ List.mem_cons_self⟩
  · rintro ⟨target, hmem⟩
    rw [Option.isSome_iff_ne_none]
    intro hnone
    have htarget : target ∈ a.forcedReferences := List.mem_filterMap.2 ⟨_, hmem, rfl⟩
    rw [forcedReferences_of_firstForced?_eq_none hnone] at htarget
    cases htarget

theorem splice_append (before : List Segment) (segment : Segment) (after : List Segment)
    (choice : Alternative) :
    (⟨before ++ segment :: after⟩ : Alternative).splice before.length choice =
      ofSegments (before ++ choice.segments ++ after) := by
  simp [splice]

end Alternative

namespace Table

/-! ## One pass -/

/-- What stands in place of an alternative after a pass: the alternative itself if it holds no
forced reference, and otherwise one alternative for each of the leftmost one's target. -/
def resolved (table : Table) (a : Alternative) : List Alternative :=
  match a.firstForced? with
  | none => [a]
  | some (index, reference) =>
    match table.get? reference with
    | none => []
    | some target => target.alternatives.map fun choice => a.splice index choice

variable {table table' : Table} {symbol : Symbol} {alternatives : List Alternative}

theorem unfoldAlternative_eq_ok {a : Alternative}
    (h : table.unfoldAlternative symbol a = .ok alternatives) :
    alternatives = table.resolved a ∧
      ∀ index reference, a.firstForced? = some (index, reference) →
        table.contains reference = true := by
  unfold unfoldAlternative at h
  split at h
  · rename_i hfirst
    cases h
    exact ⟨by simp only [resolved, hfirst], by simp [hfirst]⟩
  · rename_i index reference hfirst
    split at h
    · cases h
    · rename_i target hget
      cases h
      refine ⟨by simp only [resolved, hfirst, hget], ?_⟩
      intro index' reference' hfirst'
      rw [hfirst, Option.some.injEq, Prod.mk.injEq] at hfirst'
      rw [← hfirst'.2, contains, hget, Option.isSome_some]

/-- A pass that succeeds resolves every alternative, and finds the targets of all. -/
theorem unfoldPass_eq_ok {as : List Alternative}
    (h : table.unfoldPass symbol as = .ok alternatives) :
    alternatives = as.flatMap table.resolved ∧
      ∀ a ∈ as, ∀ index reference, a.firstForced? = some (index, reference) →
        table.contains reference = true := by
  induction as generalizing alternatives with
  | nil =>
    cases h
    exact ⟨rfl, by simp⟩
  | cons a rest ih =>
    unfold unfoldPass at h
    cases ha : table.unfoldAlternative symbol a with
    | error error => simp [ha, bind, Except.bind] at h
    | ok resolved =>
      cases hrest : table.unfoldPass symbol rest with
      | error error => simp [ha, hrest, bind, Except.bind] at h
      | ok others =>
        simp only [ha, hrest, bind, Except.bind, pure, Except.pure, Except.ok.injEq] at h
        obtain ⟨rfl, hdefined⟩ := unfoldAlternative_eq_ok ha
        obtain ⟨rfl, hothers⟩ := ih hrest
        exact ⟨h.symm, List.forall_mem_cons.2 ⟨hdefined, hothers⟩⟩

/-- A pass that fails came to a forced reference to a symbol that is not defined. -/
theorem unfoldPass_eq_error {as : List Alternative} {error : GrammarError}
    (h : table.unfoldPass symbol as = .error error) :
    ∃ a ∈ as, ∃ index reference, a.firstForced? = some (index, reference) ∧
      table.contains reference = false ∧ error = .undefinedForcedReference symbol reference := by
  induction as with
  | nil => cases h
  | cons a rest ih =>
    unfold unfoldPass at h
    cases ha : table.unfoldAlternative symbol a with
    | error error' =>
      simp only [ha, bind, Except.bind, Except.error.injEq] at h
      unfold unfoldAlternative at ha
      split at ha
      · cases ha
      · rename_i index reference hfirst
        split at ha
        · rename_i hget
          cases ha
          refine ⟨a, List.mem_cons_self, index, reference, hfirst, ?_, h.symm⟩
          rw [contains, hget, Option.isSome_none]
        · cases ha
    | ok resolved =>
      cases hrest : table.unfoldPass symbol rest with
      | ok others => simp [ha, hrest, bind, Except.bind, pure, Except.pure] at h
      | error error' =>
        simp only [ha, hrest, bind, Except.bind, Except.error.injEq] at h
        obtain ⟨b, hb, hfound⟩ := ih (hrest.trans (congrArg Except.error h))
        exact ⟨b, List.mem_cons_of_mem _ hb, hfound⟩

theorem resolved_of_firstForced?_eq_none {a : Alternative} (h : a.firstForced? = none) :
    table.resolved a = [a] := by
  simp only [resolved, h]

theorem resolved_of_firstForced? {a : Alternative} {index : Nat} {reference : Symbol}
    (h : a.firstForced? = some (index, reference)) :
    table.resolved a = (table.alternatives reference).map fun choice => a.splice index choice := by
  unfold alternatives
  simp only [resolved, h]
  cases table.get? reference with
  | none => rfl
  | some target => rfl

/-- What an alternative refers to after a pass, it referred to before, or the target of one of its
forced references did. -/
theorem mem_filterMap_of_mem_resolved {f : Segment → Option Symbol}
    (hf : ∀ text, f (.literal text) = none) {a b : Alternative} {reference : Symbol}
    (hb : b ∈ table.resolved a) (h : reference ∈ b.segments.filterMap f) :
    reference ∈ a.segments.filterMap f ∨
      ∃ target ∈ a.forcedReferences, ∃ choice ∈ table.alternatives target,
        reference ∈ choice.segments.filterMap f := by
  cases hfirst : a.firstForced? with
  | none =>
    rw [resolved_of_firstForced?_eq_none hfirst, List.mem_singleton] at hb
    subst hb
    exact Or.inl h
  | some found =>
    obtain ⟨index, target⟩ := found
    rw [resolved_of_firstForced? hfirst] at hb
    obtain ⟨before, after, rfl, rfl, -⟩ := Alternative.exists_of_firstForced? hfirst
    obtain ⟨choice, hchoice, rfl⟩ := List.mem_map.1 hb
    rw [Alternative.splice_append, Alternative.filterMap_ofSegments hf, List.filterMap_append,
      List.filterMap_append] at h
    have hrest : ∀ {s}, s ∈ after.filterMap f →
        s ∈ (Segment.forced target :: after).filterMap f :=
      fun hs => ((List.sublist_cons_self _ _).filterMap f).subset hs
    rcases List.mem_append.1 h with hfront | hafter
    · rcases List.mem_append.1 hfront with hbefore | hmiddle
      · left
        rw [List.filterMap_append]
        exact List.mem_append_left _ hbefore
      · right
        refine ⟨target, ?_, choice, hchoice, hmiddle⟩
        rw [Alternative.forcedReferences, List.filterMap_append]
        exact List.mem_append_right _ List.mem_cons_self
    · left
      rw [List.filterMap_append]
      exact List.mem_append_right _ (hrest hafter)

/-- One pass over the alternatives of one symbol. -/
inductive Pass (symbol : Symbol) (table : Table) : Table → Prop where
  | intro {production : Production} {alternatives : List Alternative}
      (hget : table.get? symbol = some production) (hforced : production.hasForced = true)
      (hpass : table.unfoldPass symbol production.alternatives = .ok alternatives) :
      Pass symbol table (table.replace symbol alternatives)

/-- A pass changes the alternatives of its symbol only. -/
theorem Pass.alternatives_eq (h : Pass symbol table table') (symbol' : Symbol) :
    table'.alternatives symbol' =
      if symbol' = symbol then (table.alternatives symbol).flatMap table.resolved
      else table.alternatives symbol' := by
  obtain ⟨hget, -, hpass⟩ := h
  obtain ⟨rfl, -⟩ := unfoldPass_eq_ok hpass
  rw [alternatives_replace hget, alternatives_of_get? hget]

/-- A pass finds the target of every leftmost forced reference. -/
theorem Pass.contains_of_firstForced? (h : Pass symbol table table') {a : Alternative}
    (ha : a ∈ table.alternatives symbol) {index : Nat} {reference : Symbol}
    (hfirst : a.firstForced? = some (index, reference)) : table.contains reference = true := by
  obtain ⟨hget, -, hpass⟩ := h
  rw [alternatives_of_get? hget] at ha
  exact (unfoldPass_eq_ok hpass).2 a ha index reference hfirst

theorem Pass.symbols_eq (h : Pass symbol table table') : table'.symbols = table.symbols := by
  obtain ⟨-, -, -⟩ := h
  exact symbols_replace ..

theorem Pass.forced_eq (h : Pass symbol table table') : table'.forced = table.forced := by
  obtain ⟨-, -, -⟩ := h
  rfl

/-- One pass over the alternatives of some symbol. -/
def Step (table table' : Table) : Prop :=
  ∃ symbol, Pass symbol table table'

/-- What every pass keeps, passes in a row keep. -/
theorem keeps_of_steps {P : Table → Prop}
    (hpass : ∀ {symbol : Symbol} {table table' : Table}, P table → Pass symbol table table' →
      P table')
    (h : P table) (hsteps : Relation.ReflTransGen Step table table') : P table' := by
  induction hsteps with
  | refl => exact h
  | tail _ hstep ih =>
    obtain ⟨_, hlast⟩ := hstep
    exact hpass ih hlast

/-- The alternatives of a symbol hold no forced references. -/
def Resolved (table : Table) (symbol : Symbol) : Prop :=
  ∀ a ∈ table.alternatives symbol, a.hasForced = false

theorem Resolved.firstForced?_eq_none (h : table.Resolved symbol) {a : Alternative}
    (ha : a ∈ table.alternatives symbol) : a.firstForced? = none := by
  have hforced := h a ha
  unfold Alternative.hasForced at hforced
  rwa [Option.isSome_eq_false_iff, Option.isNone_iff_eq_none] at hforced

/-- Passes leave the alternatives of a resolved symbol alone. -/
theorem Step.alternatives_of_resolved (h : Step table table') (hresolved : table.Resolved symbol) :
    table'.alternatives symbol = table.alternatives symbol := by
  obtain ⟨symbol', hpass⟩ := h
  rw [hpass.alternatives_eq]
  by_cases hsymbol : symbol = symbol'
  · subst hsymbol
    rw [if_pos rfl, List.flatMap_congr fun a ha =>
      resolved_of_firstForced?_eq_none (hresolved.firstForced?_eq_none ha)]
    exact List.flatMap_singleton' _
  · rw [if_neg hsymbol]

theorem Resolved.of_steps (hresolved : table.Resolved symbol)
    (h : Relation.ReflTransGen Step table table') : table'.Resolved symbol := by
  induction h with
  | refl => exact hresolved
  | tail _ hstep ih =>
    unfold Resolved
    rw [hstep.alternatives_of_resolved ih]
    exact ih

theorem symbols_eq_of_steps (h : Relation.ReflTransGen Step table table') :
    table'.symbols = table.symbols := by
  induction h with
  | refl => rfl
  | tail _ hstep ih =>
    obtain ⟨_, hpass⟩ := hstep
    exact hpass.symbols_eq.trans ih

theorem forced_eq_of_steps (h : Relation.ReflTransGen Step table table') :
    table'.forced = table.forced := by
  induction h with
  | refl => rfl
  | tail _ hstep ih =>
    obtain ⟨_, hpass⟩ := hstep
    exact hpass.forced_eq.trans ih

/-! ## Procedures as sequences of passes -/

/-- `Repeats symbol limit made table result`: the loop over the passes of `symbol`, of which `made`
are made and `limit` are allowed, goes on from `table` and ends with `result`. -/
inductive Repeats (symbol : Symbol) (limit : Nat) :
    Nat → Table → Except GrammarError Unit × Table → Prop where
  /-- No forced reference is left. -/
  | settled {table : Table} (made : Nat) (hresolved : table.Resolved symbol) :
      Repeats symbol limit made table (.ok (), table)
  /-- All passes are made. -/
  | spent {table : Table} (hleft : ¬table.Resolved symbol) :
      Repeats symbol limit limit table (.error (.unfoldCycle symbol limit []), table)
  /-- A leftmost forced reference is to a symbol that is not defined. -/
  | stuck {table : Table} {made index : Nat} {a : Alternative} {reference : Symbol}
      (hmade : made ≠ limit) (ha : a ∈ table.alternatives symbol)
      (hfirst : a.firstForced? = some (index, reference))
      (hundefined : table.contains reference = false) :
      Repeats symbol limit made table
        (.error (.undefinedForcedReference symbol reference), table)
  /-- One more pass is made. -/
  | pass {table next : Table} {made : Nat} {result : Except GrammarError Unit × Table}
      (hmade : made ≠ limit) (hpass : Pass symbol table next)
      (hrest : Repeats symbol limit (made + 1) next result) :
      Repeats symbol limit made table result

theorem resolved_of_get?_eq_none (h : table.get? symbol = none) : table.Resolved symbol := by
  intro a ha
  rw [alternatives, h] at ha
  cases ha

theorem resolved_iff_of_get? {production : Production}
    (h : table.get? symbol = some production) :
    table.Resolved symbol ↔ ¬production.hasForced = true := by
  unfold Resolved Production.hasForced
  rw [alternatives_of_get? h, List.any_eq_true]
  constructor
  · rintro hresolved ⟨a, ha, hforced⟩
    rw [hresolved a ha] at hforced
    cases hforced
  · intro hnone a ha
    rw [← Bool.not_eq_true]
    exact fun hforced => hnone ⟨a, ha, hforced⟩

/-- The loop comes to an end by its rules. -/
theorem repeats_unfoldPasses (symbol : Symbol) {limit left made : Nat}
    (h : made + left = limit) (table : Table) :
    Repeats symbol limit made table (unfoldPasses symbol limit left table) := by
  fun_induction unfoldPasses symbol limit left table generalizing made with
  | case1 left table hget => exact .settled made (resolved_of_get?_eq_none hget)
  | case2 table production hget hforced =>
    obtain rfl : made = limit := h
    refine .spent ?_
    rw [resolved_iff_of_get? hget, not_not]
    exact hforced
  | case3 table production hget hforced left error hpass =>
    obtain ⟨a, ha, index, reference, hfirst, hundefined, rfl⟩ := unfoldPass_eq_error hpass
    rw [← alternatives_of_get? hget] at ha
    exact .stuck (by omega) ha hfirst hundefined
  | case4 table production hget hforced left alternatives hpass ih =>
    exact .pass (by omega) (.intro hget hforced hpass) (ih (by omega))
  | case5 left table production hget hforced =>
    exact .settled made ((resolved_iff_of_get? hget).2 hforced)

variable {limit made : Nat} {result : Except GrammarError Unit × Table}

theorem Repeats.passes (h : Repeats symbol limit made table result) :
    Relation.ReflTransGen (Pass symbol) table result.2 := by
  induction h with
  | settled => exact .refl
  | spent => exact .refl
  | stuck => exact .refl
  | pass _ hpass _ ih => exact .head hpass ih

theorem Repeats.resolved (h : Repeats symbol limit made table result)
    (hok : result.1 = .ok ()) : result.2.Resolved symbol := by
  induction h with
  | settled _ hresolved => exact hresolved
  | spent => cases hok
  | stuck => cases hok
  | pass _ _ _ ih => exact ih hok

/-- A loop that fails does not report a path. -/
theorem Repeats.path_eq_nil {refused : Symbol} {passes : Nat} {path : List Symbol}
    (h : Repeats symbol limit made table result)
    (herror : result.1 = .error (.unfoldCycle refused passes path)) : path = [] := by
  induction h with
  | settled => cases herror
  | spent =>
    cases herror
    rfl
  | stuck => cases herror
  | pass _ _ _ ih => exact ih herror

/-- Resolving one symbol is a sequence of passes over it, also if it fails. -/
theorem passes_unfold (table : Table) (symbol : Symbol) (limit : Nat) :
    Relation.ReflTransGen (Pass symbol) table (table.unfold symbol limit).2 := by
  unfold unfold
  split
  · exact .refl
  · exact (repeats_unfoldPasses symbol (Nat.zero_add limit) table).passes

theorem alternatives_eq_of_passes {symbol' : Symbol}
    (h : Relation.ReflTransGen (Pass symbol) table table') (hne : symbol' ≠ symbol) :
    table'.alternatives symbol' = table.alternatives symbol' := by
  induction h with
  | refl => rfl
  | tail _ hpass ih => rw [hpass.alternatives_eq, if_neg hne, ih]

theorem steps_unfold (table : Table) (symbol : Symbol) (limit : Nat) :
    Relation.ReflTransGen Step table (table.unfold symbol limit).2 :=
  Relation.ReflTransGen.mono (fun _ _ hpass => ⟨symbol, hpass⟩) _ _
    (passes_unfold table symbol limit)

/-- Resolving several symbols is a sequence of passes, also if it fails. -/
theorem steps_unfoldEach (limit : Nat) (symbols : List Symbol) (table : Table) :
    Relation.ReflTransGen Step table (unfoldEach limit symbols table).2 := by
  induction symbols generalizing table with
  | nil => exact .refl
  | cons symbol rest ih =>
    have hsteps := steps_unfold table symbol limit
    unfold unfoldEach
    split
    · rename_i error table' hunfold
      rw [hunfold] at hsteps
      exact hsteps
    · rename_i table' hunfold
      rw [hunfold] at hsteps
      exact hsteps.trans (ih table')

/-- What a table is resolved to comes from it by passes. -/
theorem steps_of_unfoldAll {limit : Nat} (h : table.unfoldAll limit = (.ok (), table')) :
    Relation.ReflTransGen Step { table with forced := [] } table' := by
  have hsteps := steps_unfoldEach limit table.forced { table with forced := [] }
  rwa [show unfoldEach limit table.forced { table with forced := [] } = _ from h] at hsteps

/-! ## What success leaves behind -/

/-- A symbol is resolved if the attempt succeeds. -/
theorem resolved_of_unfold (h : table.unfold symbol limit = (.ok (), table')) :
    table'.Resolved symbol := by
  unfold unfold at h
  split at h
  · cases h
  · have hrepeats := repeats_unfoldPasses symbol (Nat.zero_add limit) table
    rw [h] at hrepeats
    exact hrepeats.resolved rfl

/-- All of several symbols are resolved if the attempt succeeds. -/
theorem resolved_of_unfoldEach {limit : Nat} {symbols : List Symbol}
    (h : unfoldEach limit symbols table = (.ok (), table')) (hmem : symbol ∈ symbols) :
    table'.Resolved symbol := by
  induction symbols generalizing table with
  | nil => cases hmem
  | cons first rest ih =>
    unfold unfoldEach at h
    split at h
    · cases h
    · rename_i next hunfold
      rcases List.mem_cons.1 hmem with rfl | hrest
      · have hsteps := steps_unfoldEach limit rest next
        rw [h] at hsteps
        exact (resolved_of_unfold hunfold).of_steps hsteps
      · exact ih h hrest

/-- The symbols that wait to be resolved are those with forced references. -/
theorem AsRead.mem_forced_iff (h : table.AsRead) :
    symbol ∈ table.forced ↔ ∃ a ∈ table.alternatives symbol, a.hasForced = true := by
  rw [h.forced_eq, List.mem_map]
  constructor
  · rintro ⟨⟨symbol, production⟩, hrow, rfl⟩
    obtain ⟨hrow, hforced⟩ := List.mem_filter.1 hrow
    obtain ⟨a, ha, hforced⟩ := List.any_eq_true.1 hforced
    refine ⟨a, ?_, hforced⟩
    rwa [alternatives_of_get? ((get?_eq_some_iff h.distinct).2 hrow)]
  · rintro ⟨a, ha, hforced⟩
    obtain ⟨production, hrow, hmem⟩ := exists_mem_rows_of_mem_alternatives ha
    exact ⟨_, List.mem_filter.2 ⟨hrow, List.any_eq_true.2 ⟨a, hmem, hforced⟩⟩, rfl⟩

theorem AsRead.resolved_of_not_mem (h : table.AsRead) (hnot : symbol ∉ table.forced) :
    table.Resolved symbol := by
  intro a ha
  rw [← Bool.not_eq_true]
  exact fun hforced => hnot (h.mem_forced_iff.2 ⟨a, ha, hforced⟩)

/-- Every symbol is resolved once all that wait for it are. -/
theorem AsRead.resolved_of_unfoldEach {limit : Nat} {symbols : List Symbol} (h : table.AsRead)
    (hall : ∀ symbol ∈ table.forced, symbol ∈ symbols)
    (hunfold : unfoldEach limit symbols { table with forced := [] } = (.ok (), table'))
    (symbol : Symbol) : table'.Resolved symbol := by
  by_cases hmem : symbol ∈ table.forced
  · exact Table.resolved_of_unfoldEach hunfold (hall symbol hmem)
  · have hstart : Table.Resolved { table with forced := [] } symbol := h.resolved_of_not_mem hmem
    have hsteps := steps_unfoldEach limit symbols { table with forced := [] }
    rw [hunfold] at hsteps
    exact hstart.of_steps hsteps

end Table

end TextGrammar
