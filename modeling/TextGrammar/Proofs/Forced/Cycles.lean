import TextGrammar.Proofs.Forced.Resolution
import TextGrammar.Proofs.Forced.Walk
import TextGrammar.Proofs.Parsing

/-!
# Cycles and resolving

A symbol is refused, with nothing resolved, exactly if its forced references lead to a cycle
(`Table.unfold_cases`). Over several symbols the table changes in between, but neither does a cycle
go away by it nor does one come up:

* a symbol that is resolved lies on no cycle, so every cycle is still there afterwards
  (`Table.transGen_of_unfold`), and the symbols on it cannot all be resolved;
* after a pass forced references lead where they led before (`Table.Acyclic.of_steps`).

`Table.refuses_exactly_cycles` is the result.
-/

namespace TextGrammar

namespace Table

variable {table table' : Table} {symbol : Symbol} {limit : Nat}

/-! ## One symbol -/

/-- A symbol is refused with the path of a cycle, or it leads to none and passes are made. -/
theorem unfold_cases (table : Table) (symbol : Symbol) (limit : Nat) :
    (∃ path, table.ForcedCycle symbol path ∧
        table.unfold symbol limit = (.error (.unfoldCycle symbol 0 path), table)) ∨
      (¬table.ReachesCycle symbol ∧
        Repeats symbol limit 0 table (table.unfold symbol limit)) := by
  cases hcycle : table.forcedCycle? symbol with
  | some path =>
    refine Or.inl ⟨path, forcedCycle?_eq_some hcycle, ?_⟩
    simp only [unfold, hcycle]
  | none =>
    refine Or.inr ⟨forcedCycle?_eq_none hcycle, ?_⟩
    simp only [unfold, hcycle]
    exact repeats_unfoldPasses symbol (Nat.zero_add limit) table

theorem ForcedCycle.ne_nil {path : List Symbol} (h : table.ForcedCycle symbol path) :
    path ≠ [] := by
  rintro rfl
  cases h.starts

theorem exists_unfoldCycle_iff :
    (∃ refused passes path, path ≠ [] ∧
        (table.unfold symbol limit).1 = .error (.unfoldCycle refused passes path)) ↔
      table.ReachesCycle symbol := by
  rcases unfold_cases table symbol limit with ⟨path, hcycle, hunfold⟩ | ⟨hnot, hrepeats⟩
  · rw [hunfold]
    exact ⟨fun _ => hcycle.reachesCycle, fun _ => ⟨symbol, 0, path, hcycle.ne_nil, rfl⟩⟩
  · refine ⟨?_, fun hreaches => absurd hreaches hnot⟩
    rintro ⟨refused, passes, path, hne, herror⟩
    exact absurd (hrepeats.path_eq_nil herror) hne

theorem eq_of_unfoldCycle {refused : Symbol} {passes : Nat} {path : List Symbol}
    (hne : path ≠ [])
    (h : (table.unfold symbol limit).1 = .error (.unfoldCycle refused passes path)) :
    refused = symbol ∧ passes = 0 ∧ table.ForcedCycle symbol path ∧
      (table.unfold symbol limit).2 = table := by
  rcases unfold_cases table symbol limit with ⟨path', hcycle, hunfold⟩ | ⟨-, hrepeats⟩
  · rw [hunfold] at h ⊢
    cases h
    exact ⟨rfl, rfl, hcycle, rfl⟩
  · exact absurd (hrepeats.path_eq_nil h) hne

/-! ## Cycles stay -/

theorem not_reachesCycle_of_unfold (h : table.unfold symbol limit = (.ok (), table')) :
    ¬table.ReachesCycle symbol := by
  rcases unfold_cases table symbol limit with ⟨path, -, hunfold⟩ | ⟨hnot, -⟩
  · cases hunfold.symm.trans h
  · exact hnot

/-- Resolving a symbol keeps every cycle, since the symbol lies on none. -/
theorem transGen_of_unfold {other : Symbol} (h : table.unfold symbol limit = (.ok (), table'))
    (hcycle : Relation.TransGen table.Forces other other) :
    Relation.TransGen table'.Forces other other := by
  have hpasses := passes_unfold table symbol limit
  rw [h] at hpasses
  have hkeeps : ∀ {source target}, table.ReachesCycle source → table.Forces source target →
      table'.Forces source target := by
    intro source target hreaches hforces
    have hne : source ≠ symbol := by
      rintro rfl
      exact not_reachesCycle_of_unfold h hreaches
    rw [forces_iff, alternatives_eq_of_passes hpasses hne]
    exact forces_iff.1 hforces
  have hpath : ∀ {source}, Relation.TransGen table.Forces source other →
      Relation.TransGen table'.Forces source other := by
    intro source hpath
    induction hpath using Relation.TransGen.head_induction_on with
    | single hforces => exact .single (hkeeps ⟨other, .single hforces, hcycle⟩ hforces)
    | head hforces hrest ih =>
      exact .head (hkeeps ⟨other, .head hforces hrest.to_reflTransGen, hcycle⟩ hforces) ih
  exact hpath hcycle

theorem transGen_of_unfoldEach {symbols : List Symbol} {other : Symbol}
    (h : unfoldEach limit symbols table = (.ok (), table'))
    (hcycle : Relation.TransGen table.Forces other other) :
    Relation.TransGen table'.Forces other other := by
  induction symbols generalizing table with
  | nil =>
    cases h
    exact hcycle
  | cons symbol rest ih =>
    unfold unfoldEach at h
    split at h
    · cases h
    · rename_i next hunfold
      exact ih h (transGen_of_unfold hunfold hcycle)

theorem Resolved.not_forces {target : Symbol} (h : table.Resolved symbol) :
    ¬table.Forces symbol target := by
  rw [forces_iff]
  rintro ⟨a, ha, htarget⟩
  rw [Alternative.forcedReferences_of_firstForced?_eq_none (h.firstForced?_eq_none ha)] at htarget
  cases htarget

/-! ## No cycle comes up -/

/-- After a pass, a symbol forces what it led to before. -/
theorem Pass.transGen_of_forces {source target : Symbol} (h : Pass symbol table table')
    (hforces : table'.Forces source target) : Relation.TransGen table.Forces source target := by
  obtain ⟨b, hb, htarget⟩ := forces_iff.1 hforces
  rw [h.alternatives_eq] at hb
  by_cases hsource : source = symbol
  · subst hsource
    rw [if_pos rfl] at hb
    obtain ⟨a, ha, hba⟩ := List.mem_flatMap.1 hb
    have hforced : ∀ text, Segment.forced? (.literal text) = none := fun _ => rfl
    rcases mem_filterMap_of_mem_resolved hforced hba htarget with
      hold | ⟨middle, hmiddle, choice, hchoice, hnew⟩
    · exact .single (forces_iff.2 ⟨a, ha, hold⟩)
    · exact .head (forces_iff.2 ⟨a, ha, hmiddle⟩) (.single (forces_iff.2 ⟨choice, hchoice, hnew⟩))
  · rw [if_neg hsource] at hb
    exact .single (forces_iff.2 ⟨b, hb, htarget⟩)

theorem Acyclic.pass (h : table.Acyclic) (hpass : Pass symbol table table') : table'.Acyclic :=
  fun other hcycle =>
    h other (Relation.TransGen.closed (fun _ _ => hpass.transGen_of_forces) _ _ hcycle)

theorem Acyclic.of_steps (h : table.Acyclic) (hsteps : Relation.ReflTransGen Step table table') :
    table'.Acyclic :=
  keeps_of_steps Acyclic.pass h hsteps

theorem Acyclic.path_eq_nil {symbols : List Symbol} {refused : Symbol} {passes : Nat}
    {path : List Symbol} (h : table.Acyclic)
    (herror : (unfoldEach limit symbols table).1 = .error (.unfoldCycle refused passes path)) :
    path = [] := by
  induction symbols generalizing table with
  | nil => cases herror
  | cons symbol rest ih =>
    unfold unfoldEach at herror
    split at herror
    · rename_i error next hunfold
      cases herror
      by_contra hne
      have hfails : (table.unfold symbol limit).1 = .error (.unfoldCycle refused passes path) :=
        congrArg Prod.fst hunfold
      exact h.not_reachesCycle (eq_of_unfoldCycle hne hfails).2.2.1.reachesCycle
    · rename_i next hunfold
      have hsteps := steps_unfold table symbol limit
      rw [hunfold] at hsteps
      exact ih (h.of_steps hsteps) herror

/-! ## Without the search -/

/-- Where no cycle is reached, resolving a symbol is nothing but its passes. -/
theorem unfold_eq_unfoldPasses (h : ¬table.ReachesCycle symbol) (limit : Nat) :
    table.unfold symbol limit = unfoldPasses symbol limit limit table := by
  unfold unfold
  cases hcycle : table.forcedCycle? symbol with
  | none => rfl
  | some path => exact absurd (forcedCycle?_eq_some hcycle).reachesCycle h

/-- Repeats the passes for several symbols, one after the other, up to the first that fails. -/
def passesEach (limit : Nat) : List Symbol → Table → Except GrammarError Unit × Table
  | [], table => (.ok (), table)
  | symbol :: rest, table =>
    match unfoldPasses symbol limit limit table with
    | (.error error, table) => (.error error, table)
    | (.ok (), table) => passesEach limit rest table

/-- Without cycles, resolving several symbols is nothing but their passes, since no cycle comes up
on the way. -/
theorem Acyclic.unfoldEach_eq (h : table.Acyclic) (limit : Nat) (symbols : List Symbol) :
    unfoldEach limit symbols table = passesEach limit symbols table := by
  induction symbols generalizing table with
  | nil => rfl
  | cons symbol rest ih =>
    have hsteps := steps_unfold table symbol limit
    rw [unfoldEach, passesEach, ← unfold_eq_unfoldPasses h.not_reachesCycle]
    generalize table.unfold symbol limit = run at hsteps ⊢
    obtain ⟨error | _, next⟩ := run
    · rfl
    · exact ih (h.of_steps hsteps)

theorem Acyclic.unfoldAll_eq (h : table.Acyclic) (limit : Nat) :
    table.unfoldAll limit = passesEach limit table.forced { table with forced := [] } :=
  have htaken : Acyclic { table with forced := [] } := h
  htaken.unfoldEach_eq limit table.forced

/-! ## The result -/

/-- Exactly the cycles of forced references are refused. Whatever the limit is, resolving a symbol
fails with a path if and only if its forced references lead to a cycle. The path then shows one, no
pass has been made, and the table is what it was. If the table of a source has a cycle anywhere,
resolving all of it does not succeed under any limit, and if it has none, no path is reported. The
search for cycles ends, whatever the table is and wherever the search stands. -/
theorem refuses_exactly_cycles :
    (∀ (table : Table) (symbol : Symbol) (limit : Nat),
      ((∃ refused passes path, path ≠ [] ∧
          (table.unfold symbol limit).1 = .error (.unfoldCycle refused passes path)) ↔
        table.ReachesCycle symbol) ∧
      ∀ refused passes path, path ≠ [] →
        (table.unfold symbol limit).1 = .error (.unfoldCycle refused passes path) →
          refused = symbol ∧ passes = 0 ∧ table.ForcedCycle symbol path ∧
            (table.unfold symbol limit).2 = table) ∧
    (∀ (source : Text) (table : Table), Table.parse source = .ok table →
      ((∃ symbol, Relation.TransGen table.Forces symbol symbol) →
        ∀ limit, (table.unfoldAll limit).1 ≠ .ok ()) ∧
      ((∀ symbol, ¬Relation.TransGen table.Forces symbol symbol) →
        ∀ limit refused passes path,
          (table.unfoldAll limit).1 = .error (.unfoldCycle refused passes path) → path = [])) ∧
    ∀ (table : Table) (path references done : List Symbol),
      table.Walk path references done (table.walkForced path references done) := by
  refine ⟨?_, ?_, walk_walkForced⟩
  · intro table symbol limit
    exact ⟨exists_unfoldCycle_iff, fun refused passes path => eq_of_unfoldCycle⟩
  · intro source table hparse
    constructor
    · rintro ⟨symbol, hcycle⟩ limit hok
      have hunfold : table.unfoldAll limit = (.ok (), (table.unfoldAll limit).2) :=
        Prod.ext hok rfl
      have hstays := transGen_of_unfoldEach hunfold hcycle
      obtain ⟨target, hforces, -⟩ := Relation.TransGen.head'_iff.1 hstays
      exact ((asRead_of_parse hparse).resolved_of_unfoldEach (fun _ hmem => hmem) hunfold
        symbol).not_forces hforces
    · intro hacyclic limit refused passes path herror
      have hstart : Table.Acyclic { table with forced := [] } := hacyclic
      exact hstart.path_eq_nil herror

/-- A source with a cycle that begins behind `$s`, next to a reference that is not defined. -/
def detourSource : Text :=
  "$s=x|>$a;$a=>$b;$b=>$gone|y>$a".toList

def detour : Table :=
  let a := Symbol.ofIdentifier ['a']
  let b := Symbol.ofIdentifier ['b']
  { rows := [(.start, ⟨[⟨[.literal ['x']]⟩, ⟨[.forced a]⟩]⟩),
      (a, ⟨[⟨[.forced b]⟩]⟩),
      (b, ⟨[⟨[.forced (.ofIdentifier "gone".toList)]⟩, ⟨[.literal ['y'], .forced a]⟩]⟩)]
    forced := [.start, a, b] }

/-- The path from `$s` to where its forced references come back. -/
def detourPath : List Symbol :=
  [.start, .ofIdentifier ['a'], .ofIdentifier ['b'], .ofIdentifier ['a']]

/-- A source with more forced references than two passes resolve, and no cycle. -/
def chainSource : Text :=
  "$s=>$a>$a>$a;$a=x".toList

def chain : Table :=
  let a := Symbol.ofIdentifier ['a']
  { rows := [(.start, ⟨[⟨[.forced a, .forced a, .forced a]⟩]⟩), (a, ⟨[⟨[.literal ['x']]⟩]⟩)]
    forced := [.start] }

theorem forcedCycle?_detour : detour.forcedCycle? .start = some detourPath := by
  have hstart : detour.forcedReferences .start = [.ofIdentifier ['a']] := by decide
  have ha : detour.forcedReferences (.ofIdentifier ['a']) = [.ofIdentifier ['b']] := by decide
  have hb : detour.forcedReferences (.ofIdentifier ['b']) =
      [.ofIdentifier "gone".toList, .ofIdentifier ['a']] := by decide
  simp +decide [forcedCycle?, walkForced, hstart, ha, hb, detourPath]

theorem acyclic_chain : chain.Acyclic := by
  apply acyclic_of_rank fun symbol => chain.rows.length - chain.symbols.idxOf symbol
  decide

theorem refuses_detour_not_chain :
    (detourPath ≠ [] ∧ (detour.unfold .start 64).1 = .error (.unfoldCycle .start 0 detourPath) ∧
        detour.ForcedCycle .start detourPath ∧ (detour.unfold .start 64).2 = detour) ∧
      (Table.parse detourSource = .ok detour ∧
        (∃ symbol, Relation.TransGen detour.Forces symbol symbol) ∧
        ∀ limit, (detour.unfoldAll limit).1 ≠ .ok ()) ∧
      Table.parse chainSource = .ok chain ∧
        (∀ symbol, ¬Relation.TransGen chain.Forces symbol symbol) ∧
        (chain.unfoldAll 2).1 = .error (.unfoldCycle .start 2 []) ∧ ([] : List Symbol) = [] := by
  obtain ⟨hone, hall, -⟩ := refuses_exactly_cycles
  have hrefused : (detour.unfold .start 64).1 = .error (.unfoldCycle .start 0 detourPath) := by
    rw [unfold, forcedCycle?_detour]
  have hne : detourPath ≠ [] := List.cons_ne_nil _ _
  have hdetour : Table.parse detourSource = .ok detour := by decide +kernel
  have hchain : Table.parse chainSource = .ok chain := by decide +kernel
  have hcycle : ∃ symbol, Relation.TransGen detour.Forces symbol symbol :=
    ⟨.ofIdentifier ['a'], .head (b := .ofIdentifier ['b']) (by decide) (.single (by decide))⟩
  have hlimit : (chain.unfoldAll 2).1 = .error (.unfoldCycle .start 2 []) := by
    rw [acyclic_chain.unfoldAll_eq]
    decide +kernel
  refine ⟨?_, ⟨hdetour, hcycle, (hall _ _ hdetour).1 hcycle⟩, hchain, acyclic_chain, hlimit,
    (hall _ _ hchain).2 acyclic_chain 2 _ _ _ hlimit⟩
  obtain ⟨-, -, hpath, htable⟩ := (hone _ _ 64).2 _ _ _ hne hrefused
  exact ⟨hne, hrefused, hpath, htable⟩

end Table

end TextGrammar
